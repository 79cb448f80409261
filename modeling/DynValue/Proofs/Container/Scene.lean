import DynValue.Proofs.Container.Settling

/-!
# Where a conversion takes place

While a conversion runs, what is held varies: windows fill, results are
kept, entries are let go of. A **scene** are bounds within which it stays
(`Scene`), such that no weak reference that matters is alive for some of
what lies between them and not for the rest. In a scene a variant starts to
convert in one way only.

An object that is converted is held throughout, and holds all that can be
reached from it. So nothing is reached that is not reached from the start,
and reading an object always is a scene (`Scene.object`). The parts of a
list or a dictionary may be let go of one by one. There it has to be known
that what they refer to weakly stays alive (`Scene.steady`).
-/

namespace DynValue

open Schedule
open RefSet (Between Below)

variable {C : CallerTypes} {S : Setting C} {base R : RefSet} {top weak : Ref → Prop}

/-- **The surroundings of a conversion.** What is held lies between `base`
and `top`, and for all of it the same of the references in `weak` are alive. -/
structure Scene (S : Setting C) (base : RefSet) (top weak : Ref → Prop) : Prop where
  below : base.Below top
  /-- The upper bound has what is held by anything that it has. -/
  closed : ∀ s r, top s → S.heap.heldBy s r = true → top r
  weak_of_heap : ∀ r, S.heap.refersWeakly r = true → weak r
  alive_eq : ∀ {R r}, Between base top R → weak r → S.heap.alive R r = S.heap.alive base r
  rule_eq : ∀ {R} (tag : C.Tag) (v : Variant C), Between base top R →
    (∀ r, v.refersWeakly r = true → weak r) →
    (S.converters.rule tag (S.heap.alive R) v).value
      = (S.converters.rule tag (S.heap.alive base) v).value

/-- **A variant that a conversion can come upon** in a scene. -/
structure Known (top weak : Ref → Prop) (breadth : Nat) (v : Variant C) : Prop where
  holds : v.holds.Below top
  refersWeakly : ∀ r, v.refersWeakly r = true → weak r
  breadth_le : v.breadth ≤ breadth

namespace Known

variable {breadth : Nat} {v w : Variant C}

theorem of_partOf (h : Known top weak breadth v) (part : w.PartOf v) :
    Known top weak breadth w :=
  ⟨fun r hr => h.holds r (part.holds r hr),
    fun r hr => h.refersWeakly r (part.refersWeakly r hr), part.breadth.trans h.breadth_le⟩

/-- What a known object answers is known. -/
theorem answer {r : Ref} (sc : Scene S base top weak) (hr : top r)
    (hB : S.heap.breadth ≤ breadth) (read : Read) :
    Known top weak breadth (Entry.answer (S.heap.object r) read) :=
  ⟨fun _ held => sc.closed r _ hr (Heap.holds_answer held),
    fun r' refers => sc.weak_of_heap r' (Heap.refersWeakly_answer refers),
    (S.heap.breadth_answer_le r read).trans hB⟩

end Known

namespace Scene

variable {breadth : Nat} {v : Variant C}

/-- Only what the upper bound has is alive. -/
theorem top_of_alive (sc : Scene S base top weak) (hR : Between base top R) {r : Ref}
    (alive : S.heap.alive R r = true) : top r := by
  obtain ⟨-, path⟩ := Heap.alive_iff.1 alive
  induction path with
  | root mem => exact hR.below _ mem
  | @held r s path holds ih =>
    exact sc.closed s r (ih (Heap.alive_iff.2 ⟨Heap.lt_of_heldBy holds, path⟩)) holds

theorem source_eq (sc : Scene S base top weak) (hv : Known top weak breadth v)
    (hR : Between base top R) :
    v.source (S.heap.alive R) = v.source (S.heap.alive base) :=
  Variant.source_eq fun r hr => sc.alive_eq hR (hv.refersWeakly r hr)

theorem convert_eq (sc : Scene S base top weak) (hv : Known top weak breadth v)
    (hR : Between base top R) (t : Ty C) :
    (v.convert S.converters (S.heap.alive R) t).value
      = (v.convert S.converters (S.heap.alive base) t).value :=
  Variant.convert_value_eq (fun r hr => sc.alive_eq hR (hv.refersWeakly r hr))
    (fun tag => sc.rule_eq tag v hR hv.refersWeakly) t

theorem convert_below (sc : Scene S base top weak) (hv : Known top weak breadth v) {t : Ty C}
    {p : Payload C} (h : (v.convert S.converters (S.heap.alive base) t).value = .ok p) :
    p.holds.Below top := fun r hr =>
  (Variant.holds_convert h hr).elim (hv.holds r) (sc.top_of_alive (.self sc.below))

theorem object_below (sc : Scene S base top weak) (hv : Known top weak breadth v) {r : Ref}
    (h : v.source (S.heap.alive base) = .ok (.object r)) : top r :=
  (Variant.holds_object h).elim (hv.holds r) (sc.top_of_alive (.self sc.below))

/-- A smaller part of the scene is one. -/
theorem narrow {base' : RefSet} (sc : Scene S base top weak) (h : Between base top base') :
    Scene S base' top weak where
  below := h.below
  closed := sc.closed
  weak_of_heap := sc.weak_of_heap
  alive_eq := by
    intro R r hR hr
    have hR' : Between base top R := ⟨fun r hr => hR.above r (h.above r hr), hR.below⟩
    rw [sc.alive_eq hR' hr, sc.alive_eq h hr]
  rule_eq := by
    intro R tag v hR hv
    have hR' : Between base top R := ⟨fun r hr => hR.above r (h.above r hr), hR.below⟩
    rw [sc.rule_eq tag v hR' hv, sc.rule_eq tag v h hv]

/-- **What is reached from the start** is a scene, with no assumption on weak
references: between these bounds all the same is alive. -/
theorem object (S : Setting C) (base : RefSet) :
    Scene S base (S.heap.Reach base) (fun _ => True) := by
  have alive_eq : ∀ {R}, Between base (S.heap.Reach base) R →
      S.heap.alive R = S.heap.alive base :=
    fun hR => Heap.alive_eq_of_between hR.above hR.below
  exact {
    below := fun _ mem => .root mem
    closed := fun _ _ path holds => path.held holds
    weak_of_heap := fun _ _ => trivial
    alive_eq := fun hR _ => congrFun (alive_eq hR) _
    rule_eq := fun _ _ hR _ => by rw [alive_eq hR] }

/-- **What is reached from a variant and its surroundings** is a scene, if
no weak reference that the conversion can see goes bad when the variant is
let go of. -/
theorem steady {held : RefSet} (rules : S.Local)
    (stays : ∀ r, S.Sees v r → S.heap.alive (RefSet.union held v.holds) r = true →
      S.heap.alive held r = true) :
    Scene S held (S.heap.Reach (RefSet.union held v.holds)) (S.Sees v) := by
  have alive_eq : ∀ {R r}, Between held (S.heap.Reach (RefSet.union held v.holds)) R →
      S.Sees v r → S.heap.alive R r = S.heap.alive held r := by
    intro R r hR hr
    rw [Bool.eq_iff_iff]
    refine ⟨fun alive => stays r hr ?_, Heap.alive_mono hR.above⟩
    obtain ⟨lt, path⟩ := Heap.alive_iff.1 alive
    exact Heap.alive_iff.2 ⟨lt, path.trans hR.below⟩
  refine ⟨fun _ mem => .root ?_, fun _ _ path holds => path.held holds, fun _ => .inr, alive_eq,
    fun tag w hR hw => rules tag _ _ w fun r hr => ?_⟩
  · rw [RefSet.union_apply, mem, Bool.true_or]
  · exact alive_eq hR (hr.elim (hw r) .inr)

end Scene

end DynValue
