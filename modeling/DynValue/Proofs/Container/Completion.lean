import DynValue.Proofs.Container.Refinement

/-!
# Conversions driven to their end

A conversion that is asked for and driven comes to what the plain
sequential conversion gives. The fuel of `Pending.finish` is enough for
that, so there always is an outcome.

For an object nothing is assumed: it is held until its entries are
converted, and so is all that is reached from it. The entries of a list or a
dictionary are let go of one by one, and what one of them refers to weakly
may have been held by another. Here it is assumed that no weak reference
goes bad meanwhile.
-/

namespace DynValue

open Schedule
open RefSet (Between Below)

variable {C : CallerTypes} {S : Setting C} {base held : RefSet} {top weak : Ref → Prop}
  {shape : Shape} {t : Ty C} {v : Variant C}

/-- **Enough polls** drive a conversion that settles to its outcome. -/
theorem Conversion.drive_value {c : Conversion C} {s : c.State}
    {o : Except (CastError C) (Payload C)} {n m : Nat} (h : c.kind.Settles base top s o n)
    (hR : Between base top held) (enough : n < m) :
    (c.drive held m s).value = some o := by
  induction h generalizing m with
  | ready _ _ polled =>
    obtain ⟨m, rfl⟩ := Nat.exists_eq_add_of_lt enough
    have polled : (c.poll held _).value = _ := polled hR
    rw [Conversion.drive, Logged.value_bind, polled]
    rfl
  | pending _ polled _ ih =>
    obtain ⟨m, rfl⟩ : ∃ k, m = k + 1 := ⟨m - 1, by omega⟩
    have polled : (c.poll held _).value = _ := polled hR
    rw [Conversion.drive, Logged.value_bind, polled]
    exact ih (Nat.lt_of_succ_lt_succ enough)

theorem pollBound_type (delay breadth : Nat) (shape : Shape) (t : Ty C) :
    pollBound delay breadth (shape.type t)
      = delay + breadth * (delay + pollBound delay breadth t) := by
  cases shape <;> rfl

/-- Wider bounds allow more polls. -/
theorem pollBound_mono {delay delay' breadth breadth' : Nat} (delays : delay ≤ delay')
    (breadths : breadth ≤ breadth') (t : Ty C) :
    pollBound delay breadth t ≤ pollBound delay' breadth' t := by
  induction t with
  | seq k t ih | map k t ih =>
    exact Nat.add_le_add delays (Nat.mul_le_mul breadths (Nat.add_le_add delays ih))
  | _ => exact Nat.le_refl _

/-- **A pending conversion that settles** is finished. -/
theorem Pending.finish_value {f : Pending C} {o : Except (CastError C) (Payload C)} {n : Nat}
    (h : (Conversion.container S f.shape f.elem (Conversion.of S f.elem)).kind.Settles base top
      (.begun f.begun) o n)
    (le : n ≤ pollBound S.heap.delayBound (max S.heap.breadth f.begun.breadth) f.type)
    (hR : Between base top held) : (f.finish S held).value = some o :=
  Conversion.drive_value h hR (Nat.lt_succ_of_le le)

/-! ## Asking and driving -/

/-- What asking a variant for a container gives, while it is held besides
what is held anyway. -/
def Variant.pending (S : Setting C) (held : RefSet) (shape : Shape) (t : Ty C)
    (v : Variant C) : Pending C :=
  (v.pend (S.heap.alive (RefSet.union held v.holds)) shape t).value

/-- **What a conversion keeps to its end**: the object that it reads. Other
parts of its source it lets go of one by one. -/
def Begun.keeps : Begun C → RefSet
  | sourced (.object r) => RefSet.single r
  | _ => RefSet.none

/-- **The outcome of a conversion** that is asked for and then driven to its
end, when only what is held anyway is left besides it. -/
def Variant.converted (S : Setting C) (held : RefSet) (shape : Shape) (t : Ty C)
    (v : Variant C) : Option (Except (CastError C) (Payload C)) :=
  ((v.pending S held shape t).finish S held).value

theorem Variant.begun_pending (S : Setting C) (held : RefSet) (shape : Shape) (t : Ty C)
    (v : Variant C) :
    (v.pending S held shape t)
      = ⟨shape, t, match v.exactly? (shape.type t) with
        | some p => .settled (.ok p)
        | none => match v.source (S.heap.alive (RefSet.union held v.holds)) with
          | .ok source => .sourced source
          | .error reason => .settled (.error ((v.castError (shape.type t)).because reason))⟩ :=
  congrArg (Pending.mk shape t) (Variant.begin_value _ v (shape.type t))

/-- **A source whose parts refine** is converted to what it gives. -/
theorem Pending.finish_source {source : Source C} {alive : RefSet}
    (hb : base.Below top) (hR : Between base top held)
    (h : source.PartsRefine S base top (max S.heap.breadth source.breadth)
      (pollBound S.heap.delayBound (max S.heap.breadth source.breadth) t) (Conversion.of S t)
      (Variant.sequential S.converters S.heap.answers alive t)) :
    ∃ o, ((⟨shape, t, .sourced source⟩ : Pending C).finish S held).value = some o
      ∧ ∀ p, o = .ok p ↔ source.Gives S.heap.answers shape t
        (Variant.sequential S.converters S.heap.answers alive t) p := by
  obtain ⟨o, n, le, settles, alike⟩ := Source.settles hb (Nat.le_max_left _ _) h
  refine ⟨o, Pending.finish_value settles ?_ hR, alike⟩
  show n ≤ pollBound _ (max S.heap.breadth source.breadth) (shape.type t)
  rw [pollBound_type]
  exact le

/-! ## Objects -/

/-- **A variant with an object as its source** keeps the same alive as the
object itself, also if it only refers to it weakly. -/
theorem Variant.alive_object {r : Ref}
    (hs : v.source (S.heap.alive (RefSet.union held v.holds)) = .ok (.object r)) :
    S.heap.alive (RefSet.union held (RefSet.single r))
      = S.heap.alive (RefSet.union held v.holds) := by
  refine Heap.alive_eq_of_between (fun r' hr' => ?_) (fun r' hr' => ?_)
  · rw [RefSet.union_apply, Bool.or_eq_true] at hr' ⊢
    refine hr'.imp_right (fun holds => ?_)
    rw [Variant.eq_of_holds_object hs holds]
    exact beq_self_eq_true r
  · rw [RefSet.union_apply, Bool.or_eq_true] at hr'
    rcases hr' with mem | same
    · exact .root (by rw [RefSet.union_apply, mem, Bool.true_or])
    · rw [RefSet.single_apply, decide_eq_true_iff] at same
      subst same
      rcases Variant.holds_object hs with holds | alive
      · exact .root (by rw [RefSet.union_apply, holds, Bool.or_true])
      · exact (Heap.alive_iff.1 alive).2

/-- **The answers of an object refine** the plain conversion, whatever else
is held. -/
theorem Scene.object_partsRefine (S : Setting C) (held : RefSet) (r : Ref) (t : Ty C) {n : Nat}
    (hn : S.heap.breadth ≤ n) :
    (Source.object r).PartsRefine S held (S.heap.Reach (RefSet.union held (RefSet.single r))) n
      (pollBound S.heap.delayBound n t) (Conversion.of S t)
      (Variant.sequential S.converters S.heap.answers
        (S.heap.alive (RefSet.union held (RefSet.single r))) t) := by
  have sc := Scene.object S (RefSet.union held (RefSet.single r))
  have hr : S.heap.Reach (RefSet.union held (RefSet.single r)) r := by
    refine .root ?_
    rw [RefSet.union_apply, RefSet.single_apply, decide_eq_true rfl, Bool.or_true]
  exact ⟨hr, fun read => Conversion.of_refines sc hn t (.answer sc hr hn read)⟩

theorem RefSet.below_reach_union (h : Heap C) (a b : RefSet) :
    a.Below (h.Reach (RefSet.union a b)) :=
  fun r mem => .root (by rw [RefSet.union_apply, mem, Bool.true_or])

theorem RefSet.union_none (a : RefSet) : RefSet.union a RefSet.none = a :=
  funext fun r => Bool.or_false (a r)

/-! ## Lists and dictionaries -/

/-- What a conversion refines between wider bounds it refines between
narrower ones. -/
theorem Conversion.Refines.transfer {c : Conversion C} {base' : RefSet} {bound : Nat}
    {reference reference' : Except (CastError C) (Payload C)}
    (h : c.Refines base top bound v reference) (h' : c.Refines base' top bound v reference')
    (le : Between base top base') : c.Refines base top bound v reference' := by
  obtain ⟨o, n, bounded, settles, alike⟩ := h
  obtain ⟨o', n', -, settles', alike'⟩ := h'
  obtain ⟨s, starts, settles₁⟩ := settles
  obtain ⟨s', starts', settles₂⟩ := settles'
  have same : s = s' := (starts le).symm.trans (starts' (.self le.below))
  subst same
  obtain ⟨rfl, -⟩ := (settles₁.narrow le.above).unique settles₂ le.below
  exact ⟨o', n, bounded, ⟨s, starts, settles₁⟩, alike'⟩

/-- A variant is known where it is held, as wide as its source. -/
theorem Known.of_source {source : Source C} {alive : RefSet} (S : Setting C) (held : RefSet)
    (hs : v.source alive = .ok source) :
    Known (S.heap.Reach (RefSet.union held v.holds)) (S.Sees v)
      (max S.heap.breadth source.breadth) v :=
  ⟨fun r holds => .root (by rw [RefSet.union_apply, holds, Bool.or_true]), fun _ => .inl,
    (Variant.breadth_le_source hs).trans (Nat.le_max_right _ _)⟩

/-- **The parts of a source refine** the plain conversion, if no weak
reference goes bad when the source is let go of. -/
theorem Variant.partsRefine_of_stays {source : Source C} (rules : S.Local)
    (stays : ∀ r, S.Sees v r → S.heap.alive (RefSet.union held v.holds) r = true →
      S.heap.alive held r = true)
    (hs : v.source (S.heap.alive (RefSet.union held v.holds)) = .ok source) :
    source.PartsRefine S held (S.heap.Reach (RefSet.union held v.holds))
      (max S.heap.breadth source.breadth)
      (pollBound S.heap.delayBound (max S.heap.breadth source.breadth) t) (Conversion.of S t)
      (Variant.sequential S.converters S.heap.answers
        (S.heap.alive (RefSet.union held v.holds)) t) := by
  have sc := Scene.steady rules stays
  have whole : Between held (S.heap.Reach (RefSet.union held v.holds))
      (RefSet.union held v.holds) :=
    ⟨fun r mem => by rw [RefSet.union_apply, mem, Bool.true_or], fun r mem => .root mem⟩
  have hv := Known.of_source S held hs
  refine sc.partsRefine (Nat.le_max_left _ _)
    (sc.allKnown hv ((sc.source_eq hv whole).symm.trans hs)) ?_
  intro w hw
  exact (Conversion.of_refines sc (Nat.le_max_left _ _) t hw).transfer
    (Conversion.of_refines (sc.narrow whole) (Nat.le_max_left _ _) t hw) whole

/-! ## The outcome -/

/-- **No weak reference goes bad** while a conversion runs: of those that it
can come upon, what is alive when it is asked for is kept alive by what is
held anyway, with the object that is read. -/
def Variant.KeepsAlive (S : Setting C) (held : RefSet) (shape : Shape) (t : Ty C)
    (v : Variant C) : Prop :=
  ∀ r, S.Sees v r → S.heap.alive (RefSet.union held v.holds) r = true →
    S.heap.alive (RefSet.union held (v.pending S held shape t).begun.keeps) r = true

/-- In either case the parts of the source refine the plain conversion. -/
theorem Variant.exists_partsRefine {source : Source C} (rules : S.Local)
    (stays : ∀ r, S.Sees v r → S.heap.alive (RefSet.union held v.holds) r = true →
      S.heap.alive (RefSet.union held (Begun.sourced source).keeps) r = true)
    (hs : v.source (S.heap.alive (RefSet.union held v.holds)) = .ok source) :
    ∃ top : Ref → Prop, held.Below top
      ∧ source.PartsRefine S held top (max S.heap.breadth source.breadth)
        (pollBound S.heap.delayBound (max S.heap.breadth source.breadth) t)
        (Conversion.of S t) (Variant.sequential S.converters S.heap.answers
          (S.heap.alive (RefSet.union held v.holds)) t) := by
  cases source with
  | object r =>
    refine ⟨_, RefSet.below_reach_union S.heap held (RefSet.single r), ?_⟩
    rw [← Variant.alive_object hs]
    exact Scene.object_partsRefine S held r t (Nat.le_max_left _ _)
  | list items =>
    refine ⟨_, RefSet.below_reach_union S.heap held v.holds,
      Variant.partsRefine_of_stays rules ?_ hs⟩
    intro r sees alive
    rw [← RefSet.union_none held]
    exact stays r sees alive
  | dictionary entries =>
    refine ⟨_, RefSet.below_reach_union S.heap held v.holds,
      Variant.partsRefine_of_stays rules ?_ hs⟩
    intro r sees alive
    rw [← RefSet.union_none held]
    exact stays r sees alive

theorem Variant.sequential_type (K : Converters C) (objects : Ref → Answers C) (alive : RefSet)
    (shape : Shape) (t : Ty C) (v : Variant C) :
    v.sequential K objects alive (shape.type t)
      = v.sequentialContainer objects alive shape t (Variant.sequential K objects alive t) := by
  cases shape <;> rfl

theorem Variant.exists_converted (rules : S.Local) (stays : v.KeepsAlive S held shape t) :
    ∃ o, v.converted S held shape t = some o
      ∧ ∀ p, o = .ok p ↔ v.sequential S.converters S.heap.answers
        (S.heap.alive (RefSet.union held v.holds)) (shape.type t) = .ok p := by
  have begun := v.begun_pending S held shape t
  have settled : ∀ o, ((⟨shape, t, .settled o⟩ : Pending C).finish S held).value = some o := by
    intro o
    have all : ∀ R : RefSet, R.Below (fun _ => True) := fun _ _ _ => trivial
    exact Pending.finish_value (Stage.settled_settles (all _)) (Nat.zero_le _) (.self (all _))
  unfold Variant.converted
  simp only [Variant.sequential_type, Variant.sequentialContainer_eq_ok_iff]
  cases hx : v.exactly? (shape.type t) with
  | some q =>
    rw [hx] at begun
    refine ⟨.ok q, ?_, fun p => by simp⟩
    rw [begun]
    exact settled _
  | none =>
    rw [hx] at begun
    cases hs : v.source (S.heap.alive (RefSet.union held v.holds)) with
    | error reason =>
      rw [hs] at begun
      refine ⟨.error ((v.castError (shape.type t)).because reason), ?_, fun p => by simp⟩
      rw [begun]
      exact settled _
    | ok source =>
      rw [hs] at begun
      unfold Variant.KeepsAlive at stays
      rw [begun] at stays
      obtain ⟨top, hb, parts⟩ := Variant.exists_partsRefine rules stays hs
      obtain ⟨o, finished, alike⟩ : ∃ o,
          ((⟨shape, t, .sourced source⟩ : Pending C).finish S held).value = some o ∧ _ :=
        Pending.finish_source hb (.self hb) parts
      refine ⟨o, ?_, fun p => by simp [alike]⟩
      rw [begun]
      exact finished

/-- **Container conversion refines sequential conversion.** Asked for and
driven to its end, it gives a container exactly when the plain conversion
does, and that container; and it fails exactly when the plain one fails. So
results keep the order of the source, none is lost or doubled, and success
does not depend on how long any read takes. -/
theorem Variant.converted_iff_sequential (rules : S.Local)
    (stays : v.KeepsAlive S held shape t) :
    (∀ p, v.converted S held shape t = some (.ok p)
      ↔ v.sequential S.converters S.heap.answers
        (S.heap.alive (RefSet.union held v.holds)) (shape.type t) = .ok p)
    ∧ ((∃ e, v.converted S held shape t = some (.error e))
      ↔ ∃ e, v.sequential S.converters S.heap.answers
        (S.heap.alive (RefSet.union held v.holds)) (shape.type t) = .error e) := by
  obtain ⟨o, finished, alike⟩ := Variant.exists_converted rules stays
  rw [finished]
  refine ⟨fun p => ?_, ?_⟩
  · rw [← alike, Option.some.injEq]
  · cases o with
    | ok p =>
      refine iff_of_false (fun ⟨e, h⟩ => nomatch h) (fun ⟨e, h⟩ => ?_)
      cases h.symm.trans ((alike p).1 rfl)
    | error e =>
      refine iff_of_true ⟨e, rfl⟩ ?_
      cases h : v.sequential S.converters S.heap.answers
          (S.heap.alive (RefSet.union held v.holds)) (shape.type t) with
      | ok p => cases (alike p).2 h
      | error e' => exact ⟨e', rfl⟩

/-- An object with two truth values, the first of which is slow to come. -/
def ExternalObject.slowFlags : ExternalObject CallerTypes.none where
  length := 2
  elements := [.native (.bool true), .native (.bool false)]
  keys := []
  properties := []
  delay := 0
  delays := [("element 0", 3)]

/-- A list of two references to one slow object, one of them weak. -/
theorem Variant.converted_iff_sequential_slowFlags :
    (Variant.unordered (.seq .vector .variant [(Variant.ofObject 0).toPayload,
        (Variant.ofWeak .externalObject 0).toPayload])).converted
      ⟨⟨[.object .slowFlags]⟩, .refusing .none⟩ (RefSet.single 0) (.sequence .vector)
        (.seq .vector .bool)
      = some (.ok (.seq .vector (.seq .vector .bool)
        [.seq .vector .bool [.bool true, .bool false],
          .seq .vector .bool [.bool true, .bool false]])) := by
  refine ((Variant.converted_iff_sequential (fun tag => PEmpty.elim tag) ?_).1 _).2 rfl
  refine fun _ _ => Heap.alive_mono (fun r hr => ?_)
  -- the list holds nothing that is not held anyway
  have held : RefSet.single 0 r = true := by
    simpa [Variant.unordered, Variant.holds, Payload.optionHolds, Payload.holds,
      Payload.listHolds, Variant.ofObject, Variant.ofWeak, Variant.toPayload] using hr
  rw [RefSet.union_apply, held, Bool.true_or]

end DynValue
