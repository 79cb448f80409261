import DynValue.Proofs.Container.Completion

/-!
# The failure of an object

The entries of an object are converted side by side, and a later one can
fail long before an earlier one is even read. The failure that is reported
does not show it: it is that of the first entry, in the order of the object,
whose conversion fails when it is done **alone** (`Conversion.alone`), with
the very error that it gives then.

Nothing has to be assumed of weak references: the object is held until its
entries are converted, so the same is alive throughout.
-/

namespace DynValue

open Schedule
open RefSet (Between Below)

variable {C : CallerTypes} {S : Setting C} {held : RefSet} {shape : Shape} {t : Ty C}
  {v : Variant C}

/-- **A conversion alone**: a variant starts to convert and is driven to its
end, and nothing else happens. -/
def Conversion.alone (S : Setting C) (held : RefSet) (t : Ty C) (v : Variant C) :
    Option (Except (CastError C) (Payload C)) :=
  ((Conversion.of S t).drive held (pollBound S.heap.delayBound S.heap.breadth t + 1)
    ((Conversion.of S t).start held v).value).value

/-- A conversion that settles comes to its outcome alone. -/
theorem Conversion.Settles.alone_eq {top : Ref → Prop} {o : Except (CastError C) (Payload C)}
    {n : Nat} (h : (Conversion.of S t).Settles held top v o n) (hb : held.Below top)
    (le : n ≤ pollBound S.heap.delayBound S.heap.breadth t) :
    Conversion.alone S held t v = some o := by
  obtain ⟨s, starts, settles⟩ := h
  rw [Conversion.alone, starts (.self hb)]
  exact Conversion.drive_value settles (.self hb) (Nat.lt_succ_of_le le)

/-- The conversion of what an object answers, while the object is held. -/
theorem Conversion.exists_settles_answer (S : Setting C) (held : RefSet) (t : Ty C) (r : Ref)
    (read : Read) :
    ∃ o, ∃ n ≤ pollBound S.heap.delayBound S.heap.breadth t,
      (Conversion.of S t).Settles (RefSet.union held (RefSet.single r))
        (S.heap.Reach (RefSet.union held (RefSet.single r)))
        (Entry.answer (S.heap.object r) read) o n := by
  obtain ⟨o, n, le, settles, -⟩ :=
    (Scene.object_partsRefine S held r t (Nat.le_refl S.heap.breadth)).2 read
  exact ⟨o, n, le, settles⟩

/-- Asking a variant that refers to an object takes the object. -/
theorem Variant.pend_object {alive : RefSet} {r : Ref}
    (hs : v.source alive = .ok (.object r)) (shape : Shape) (t : Ty C) :
    (v.pend alive shape t).value = ⟨shape, t, .sourced (.object r)⟩ := by
  have begun := Variant.begin_value alive v (shape.type t)
  rw [Variant.exactly?_of_object hs, hs] at begun
  exact congrArg (Pending.mk shape t) begun

/-- **The outcome of an object's conversion** follows from its entries alone:
all of their results, or the first failure. -/
theorem Pending.finish_object (S : Setting C) (held : RefSet) (shape : Shape) (t : Ty C)
    (r : Ref) :
    ∃ (out : Nat → Except (CastError C) (Payload C)) (o : Except (CastError C) (Payload C)),
      (∀ k read, (Contents.ofObject shape (S.heap.object r)).read? k = some read →
        Conversion.alone S (RefSet.union held (RefSet.single r)) t
          (Entry.answer (S.heap.object r) read) = some (out k))
      ∧ ((⟨shape, t, .sourced (.object r)⟩ : Pending C).finish S held).value = some o
      ∧ Ends shape t (Contents.ofObject shape (S.heap.object r)).keys FailsFirst out
        (Contents.ofObject shape (S.heap.object r)).count o := by
  obtain ⟨parts, -, -, number⟩ := Source.parts_object S.heap r shape
  obtain ⟨out, waits, hout⟩ := exists_outcomes parts
    (fun v o n => n ≤ pollBound S.heap.delayBound S.heap.breadth t
      ∧ (Conversion.of S t).Settles (RefSet.union held (RefSet.single r))
        (S.heap.Reach (RefSet.union held (RefSet.single r))) v o n) (by
    intro v hv
    obtain ⟨k, hk⟩ := List.mem_iff_getElem?.1 hv
    rw [number] at hk
    obtain ⟨read, -, rfl⟩ := Option.map_eq_some_iff.1 hk
    exact Conversion.exists_settles_answer S held t r read)
  have answers : ∀ k read, (Contents.ofObject shape (S.heap.object r)).read? k = some read →
      ∃ n ≤ pollBound S.heap.delayBound S.heap.breadth t,
        (Conversion.of S t).Settles (RefSet.union held (RefSet.single r))
          (S.heap.Reach (RefSet.union held (RefSet.single r)))
          (Entry.answer (S.heap.object r) read) (out k) n :=
    fun k read hread => ⟨waits k, hout k _ (by rw [number, hread]; rfl)⟩
  have hr : S.heap.Reach (RefSet.union held (RefSet.single r)) r := by
    refine .root ?_
    rw [RefSet.union_apply, RefSet.single_apply, decide_eq_true rfl, Bool.or_true]
  have hb : held.Below (S.heap.Reach (RefSet.union held (RefSet.single r))) :=
    RefSet.below_reach_union S.heap held _
  obtain ⟨o, n, le, settles, ends⟩ := Stage.object_settles (t := t) hr hb
    (fun k read hread => by
      obtain ⟨m, le, settles⟩ := answers k read hread
      exact ⟨_, Nat.add_le_add (S.heap.delayOf_le r read) le, Entry.fresh_settles settles hr⟩)
  refine ⟨out, o, fun k read hread => ?_, Pending.finish_value settles ?_ (.self hb), ends⟩
  · obtain ⟨m, le, settles⟩ := answers k read hread
    exact settles.alone_eq (fun _ mem => .root mem) le
  · show n ≤ pollBound _ (max S.heap.breadth 0) (shape.type t)
    rw [Nat.max_zero, pollBound_type]
    exact le.trans (Nat.add_le_add (S.heap.delayOf_le r _)
      (Nat.mul_le_mul_right _ (S.heap.count_le r shape)))

/-- **The failure reported for an object is that of its first entry that
fails**, and the error is the one that this entry's conversion gives alone,
whatever the delays are and however much earlier a later entry failed. -/
theorem Variant.finish_eq_first_failure {alive : RefSet} {r : Ref} {k : Nat} {read : Read}
    {e : CastError C} (hs : v.source alive = .ok (.object r))
    (hk : (Contents.ofObject shape (S.heap.object r)).read? k = some read)
    (fails : Conversion.alone S (RefSet.union held (RefSet.single r)) t
      (Entry.answer (S.heap.object r) read) = some (.error e))
    (first : ∀ j < k, ∀ read', (Contents.ofObject shape (S.heap.object r)).read? j = some read' →
      ∀ e', Conversion.alone S (RefSet.union held (RefSet.single r)) t
        (Entry.answer (S.heap.object r) read') ≠ some (.error e')) :
    ((v.pend alive shape t).value.finish S held).value = some (.error e) := by
  obtain ⟨out, o, alone, finished, ends⟩ := Pending.finish_object S held shape t r
  have failed : out k = .error e := Option.some.inj ((alone k read hk).symm.trans fails)
  have lt : k < (Contents.ofObject shape (S.heap.object r)).count := by
    refine Nat.not_le.1 (fun le => ?_)
    cases hk.symm.trans (Contents.read?_eq_none_iff.2 le)
  rw [Variant.pend_object hs, finished]
  cases o with
  | ok p =>
    obtain ⟨values, all, -⟩ := ends
    obtain ⟨a, -, succeeds⟩ := all.getElem? lt
    cases failed.symm.trans succeeds
  | error e' =>
    obtain ⟨k', lt', failed', values, before⟩ := ends
    have same : k' = k := by
      rcases Nat.lt_trichotomy k' k with less | same | more
      · obtain ⟨read', hread'⟩ := Option.ne_none_iff_exists'.1
          (mt Contents.read?_eq_none_iff.1 (Nat.not_le_of_lt lt'))
        exact absurd ((alone k' read' hread').trans (congrArg some failed'))
          (first k' less read' hread' e')
      · exact same
      · obtain ⟨a, -, succeeds⟩ := before.getElem? more
        cases failed.symm.trans succeeds
    subst same
    rw [Except.error.inj (failed'.symm.trans failed)]

/-- An object of which the last two elements are no truth values, the last one
being there at once and those before it not. -/
def ExternalObject.lateFlags : ExternalObject CallerTypes.none where
  length := 3
  elements := [.native (.bool true), .native .null, .empty]
  keys := []
  properties := []
  delay := 0
  delays := [("element 0", 5), ("element 1", 3)]

/-- The second element is reported, though the third one failed before. -/
theorem Variant.finish_eq_first_failure_lateFlags :
    (((Variant.ofWeak .externalObject 0).pend (RefSet.single 0) (.sequence .deque)
        .bool).value.finish
      ⟨⟨[.object .lateFlags]⟩, .refusing .none⟩ RefSet.none).value
      = some (.error ⟨.null, .bool, none⟩) := by
  refine Variant.finish_eq_first_failure (k := 1) rfl rfl rfl (fun j less read' h e' => ?_)
  obtain rfl : j = 0 := Nat.lt_one_iff.1 less
  obtain rfl : .element 0 = read' := Option.some.inj h
  exact fun failed => nomatch failed

end DynValue
