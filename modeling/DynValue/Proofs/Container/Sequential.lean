import DynValue.Container.Collect
import DynValue.Proofs.Schedule.Outcome

/-!
# Plain sequential conversion

What a container conversion should come to, said without windows, polls or
delays: take the parts of the source one after the other in their order,
convert each, and put the container together (`Variant.sequential`). It
recurses in the type asked for, and it is given only what objects answer,
not how long they take (`Answers`).
-/

namespace DynValue

open Schedule

variable {C : CallerTypes}

/-- **What an object answers**, however long it takes. -/
structure Answers (C : CallerTypes) where
  length : Nat
  element : Nat → Variant C
  keys : List String
  property : String → Variant C

/-- The answers of an object. -/
def ExternalObject.answers (o : ExternalObject C) : Answers C :=
  ⟨o.length, o.element, o.keys, o.property⟩

/-- The answers of the objects on the heap. -/
def Heap.answers (h : Heap C) (r : Ref) : Answers C := (h.object r).answers

/-- **The parts of a source**, in order, and their keys for a mapping. A list
has no keys, and a dictionary is no sequence. -/
def Source.parts (objects : Ref → Answers C) (shape : Shape) :
    Source C → Except Reason (List String × List (Variant C))
  | .object r =>
    match shape with
    | .sequence _ => .ok ([], (List.range (objects r).length).map (objects r).element)
    | .mapping _ => .ok ((objects r).keys, (objects r).keys.map (objects r).property)
  | .list items =>
    match shape with
    | .sequence _ => .ok ([], items)
    | .mapping _ => .error .listAsMapping
  | .dictionary entries =>
    match shape with
    | .sequence _ => .error .dictionaryAsSequence
    | .mapping _ => .ok (entries.map Prod.fst, entries.map Prod.snd)

namespace Variant

/-- **One container**, sequentially: the stored value if it is exactly that,
and otherwise the parts of the source, each converted in turn. -/
def sequentialContainer (objects : Ref → Answers C) (alive : RefSet) (shape : Shape)
    (t : Ty C) (convert : Variant C → Except (CastError C) (Payload C)) (v : Variant C) :
    Except (CastError C) (Payload C) :=
  match v.exactly? (shape.type t) with
  | some p => .ok p
  | none =>
    match v.source alive >>= Source.parts objects shape with
    | .error reason => .error ((v.castError (shape.type t)).because reason)
    | .ok (keys, parts) => do
      let values ← parts.mapM convert
      return shape.assemble t keys values

/-- **Conversion to a type**, sequentially. -/
def sequential (K : Converters C) (objects : Ref → Answers C) (alive : RefSet) :
    Ty C → Variant C → Except (CastError C) (Payload C)
  | .seq k t =>
    sequentialContainer objects alive (.sequence k) t (sequential K objects alive t)
  | .map k t =>
    sequentialContainer objects alive (.mapping k) t (sequential K objects alive t)
  | t => fun v => (v.convert K alive t).value

end Variant

/-- **Of several values for one key the last one is kept**, and no other key
has a value. -/
theorem Payload.lookup_mapOf (pairs : List (String × Payload C)) (key : String) :
    (pairs.foldl (fun es e => insertEntry e.1 e.2 es) []).lookup key
      = pairs.reverse.lookup key := by
  have general : ∀ es : List (String × Payload C),
      (pairs.foldl (fun es e => insertEntry e.1 e.2 es) es).lookup key
        = (pairs.reverse.lookup key).or (es.lookup key) := by
    induction pairs with
    | nil => intro es; rfl
    | cons pair pairs ih =>
      intro es
      have one : [pair].lookup key = if key = pair.1 then some pair.2 else none := by
        rw [List.lookup_cons]
        by_cases same : key = pair.1
        · rw [beq_iff_eq.2 same, if_pos same]
        · rw [beq_eq_false_iff_ne.2 same, if_neg same]
          rfl
      rw [List.foldl_cons, ih, lookup_insertEntry, List.reverse_cons, List.lookup_append, one,
        Option.or_assoc]
      split <;> rfl
  rw [general, List.lookup_nil, Option.or_none]

/-! ## Success

A plain conversion succeeds if each part of the source converts, and gives
the container of what they convert to. -/

/-- **What a source gives**, if each of its parts converts. -/
def Source.Gives (objects : Ref → Answers C) (shape : Shape) (t : Ty C)
    (convert : Variant C → Except (CastError C) (Payload C)) (source : Source C)
    (p : Payload C) : Prop :=
  ∃ keys parts values, source.parts objects shape = .ok (keys, parts)
    ∧ parts.map convert = values.map Except.ok ∧ p = shape.assemble t keys values

/-- Converting a list in turn succeeds if each conversion does. -/
theorem mapM_eq_ok_iff {α β φ : Type} {f : α → Except φ β} {xs : List α} {ys : List β} :
    xs.mapM f = .ok ys ↔ xs.map f = ys.map Except.ok := by
  induction xs generalizing ys with
  | nil =>
    rw [List.mapM_nil, List.map_nil]
    cases ys with
    | nil => exact iff_of_true rfl rfl
    | cons y ys => exact iff_of_false (fun h => nomatch h) (fun h => nomatch h)
  | cons x xs ih =>
    rw [List.mapM_cons, List.map_cons]
    cases f x with
    | error e =>
      refine iff_of_false (fun h => nomatch h) (fun h => ?_)
      cases ys with
      | nil => cases h
      | cons y ys => cases (List.cons.inj h).1
    | ok y =>
      show (xs.mapM f >>= fun ys => pure (y :: ys)) = _ ↔ _
      cases hx : xs.mapM f with
      | error e =>
        refine iff_of_false (fun h => nomatch h) (fun h => ?_)
        cases ys with
        | nil => cases h
        | cons z zs => cases hx.symm.trans (ih.2 (List.cons.inj h).2)
      | ok zs =>
        have tail := ih.1 hx
        constructor
        · intro h
          obtain rfl := Except.ok.inj h
          exact congrArg (Except.ok y :: ·) tail
        · intro h
          cases ys with
          | nil => cases h
          | cons z ys =>
            obtain ⟨head, rest⟩ := List.cons.inj h
            obtain rfl := Except.ok.inj head
            have same : zs = ys := Except.ok.inj (hx.symm.trans (ih.2 rest))
            exact congrArg (fun ys => Except.ok (y :: ys)) same

/-- Converting a list in turn fails as the first conversion that fails. -/
theorem mapM_eq_error_iff {α β φ : Type} {f : α → Except φ β} {xs : List α} {e : φ} :
    xs.mapM f = .error e
      ↔ ∃ before x after, xs = before ++ x :: after ∧ (∀ y ∈ before, ∃ b, f y = .ok b)
        ∧ f x = .error e := by
  induction xs with
  | nil =>
    refine iff_of_false nofun ?_
    rintro ⟨before, x, after, same, -⟩
    exact List.append_ne_nil_of_right_ne_nil before (List.cons_ne_nil x after) same.symm
  | cons x xs ih =>
    rw [List.mapM_cons]
    cases first : f x with
    | error e' =>
      constructor
      · intro failed
        cases failed
        exact ⟨[], x, xs, rfl, nofun, first⟩
      · rintro ⟨before, y, after, same, good, failed⟩
        cases before with
        | nil =>
          obtain ⟨rfl, -⟩ := List.cons.inj same
          cases first.symm.trans failed
          rfl
        | cons z before =>
          obtain ⟨rfl, -⟩ := List.cons.inj same
          obtain ⟨b, succeeds⟩ := good x List.mem_cons_self
          cases first.symm.trans succeeds
    | ok b =>
      have rest : (xs.mapM f >>= fun ys => pure (b :: ys) : Except φ (List β)) = .error e
          ↔ xs.mapM f = .error e := by
        cases xs.mapM f with
        | error e' => exact Iff.rfl
        | ok ys => exact iff_of_false nofun nofun
      refine rest.trans (ih.trans ⟨?_, ?_⟩)
      · rintro ⟨before, y, after, rfl, good, failed⟩
        exact ⟨x :: before, y, after, rfl, List.forall_mem_cons.2 ⟨⟨b, first⟩, good⟩, failed⟩
      · rintro ⟨before, y, after, same, good, failed⟩
        cases before with
        | nil =>
          obtain ⟨rfl, -⟩ := List.cons.inj same
          cases first.symm.trans failed
        | cons z before =>
          obtain ⟨rfl, rfl⟩ := List.cons.inj same
          exact ⟨before, y, after, rfl, (List.forall_mem_cons.1 good).2, failed⟩

theorem mapM_bind_eq_ok_iff {α β γ φ : Type} {f : α → Except φ β} {g : List β → γ}
    {xs : List α} {c : γ} :
    (xs.mapM f >>= fun ys => pure (g ys)) = Except.ok c
      ↔ ∃ ys, xs.map f = ys.map Except.ok ∧ c = g ys := by
  constructor
  · intro h
    cases hm : xs.mapM f with
    | error e => rw [hm] at h; cases h
    | ok ys =>
      rw [hm] at h
      exact ⟨ys, mapM_eq_ok_iff.1 hm, (Except.ok.inj h).symm⟩
  · rintro ⟨ys, each, rfl⟩
    rw [mapM_eq_ok_iff.2 each]
    rfl

/-- **A plain conversion succeeds** exactly if the stored value is what was
asked for, or the source gives it. -/
theorem Variant.sequentialContainer_eq_ok_iff {objects : Ref → Answers C} {alive : RefSet}
    {shape : Shape} {t : Ty C} {convert : Variant C → Except (CastError C) (Payload C)}
    {v : Variant C} {p : Payload C} :
    v.sequentialContainer objects alive shape t convert = .ok p
      ↔ v.exactly? (shape.type t) = some p
        ∨ v.exactly? (shape.type t) = none
          ∧ ∃ source, v.source alive = .ok source
            ∧ source.Gives objects shape t convert p := by
  unfold sequentialContainer
  cases hx : v.exactly? (shape.type t) with
  | some q => simp
  | none =>
    refine Iff.trans ?_ (or_iff_right (fun h => nomatch h)).symm
    rw [eq_self_iff_true, true_and]
    cases hs : v.source alive with
    | error reason => exact iff_of_false (fun h => nomatch h) (fun ⟨_, h, _⟩ => nomatch h)
    | ok source =>
      cases hp : source.parts objects shape with
      | error reason =>
        refine iff_of_false ?_ ?_
        · show (match source.parts objects shape with
            | .error reason => Except.error _
            | .ok (keys, parts) => _) ≠ _
          rw [hp]
          exact fun h => nomatch h
        · rintro ⟨_, same, _, _, _, parts, -⟩
          obtain rfl := Except.ok.inj same
          cases hp.symm.trans parts
      | ok kp =>
        obtain ⟨keys, parts⟩ := kp
        show (match source.parts objects shape with
          | .error reason => Except.error _
          | .ok (keys, parts) => _) = _ ↔ _
        rw [hp]
        refine mapM_bind_eq_ok_iff.trans ⟨?_, ?_⟩
        · rintro ⟨values, each, rfl⟩
          exact ⟨source, rfl, keys, parts, values, hp, each, rfl⟩
        · rintro ⟨_, same, _, _, values, hp', each, rfl⟩
          obtain rfl := Except.ok.inj same
          obtain ⟨rfl, rfl⟩ := Prod.mk.inj (Except.ok.inj (hp.symm.trans hp'))
          exact ⟨values, each, rfl⟩

end DynValue
