import DynValue.Proofs.Container.Load
import DynValue.Proofs.Container.Snapshot
import DynValue.Proofs.Session.History

/-!
# Begun conversions are snapshots

A caller that has asked for a container may do other things before it drives the
conversion: change the variant or give it up, let go of its own references, make and
convert something else. Nothing of this shows in the outcome. A command leaves the
conversions of other names as they are and only ever adds to the heap
(`Session.keeps_step`), so what the conversion took hold of when it was asked for is
there when it is driven, with all that can be reached from it.

This is so if nothing that is reached is a weak reference. The variant itself may be
one: whether its referent is alive is settled when the container is asked for, and
an object that is alive then is held from there on.
-/

namespace DynValue

variable {C : CallerTypes}

/-! ## Variants that refer strongly -/

/-- **What a variant refers to**: what it holds, and what is alive of the rest. -/
def Variant.refersTo (alive : RefSet) (v : Variant C) : RefSet :=
  fun r => v.holds r || (v.refersWeakly r && alive r)

/-- **A variant refers strongly below the top**: it may be a weak reference itself,
but has none within, and neither have the objects that are reached from it. -/
structure Variant.StrongBelow (h : Heap C) (alive : RefSet) (v : Variant C) : Prop where
  within : (∃ t r, v.payload = some (.weak t r)) ∨ ∀ r, v.refersWeakly r = false
  reached : ∀ r, h.Reach (v.refersTo alive) r →
    r < h.cells.length ∧ ∀ r', (h.object r).refersWeakly r' = false

namespace Variant.StrongBelow

variable {h : Heap C} {alive : RefSet} {v : Variant C}

theorem alive_iff (strong : v.StrongBelow h alive) {r : Ref} :
    h.alive (v.refersTo alive) r = true ↔ h.Reach (v.refersTo alive) r :=
  Heap.alive_iff.trans ⟨And.right, fun path => ⟨(strong.reached r path).1, path⟩⟩

/-- What is reached is a part of the heap that is closed. -/
theorem encloses (strong : v.StrongBelow h alive) :
    h.Encloses (h.alive (v.refersTo alive)) where
  holds {r r'} hr held := by
    rcases h.object_eq r with blank | cell
    · rw [blank] at held
      cases held
    · refine strong.alive_iff.2 ((strong.alive_iff.1 hr).held ?_)
      rw [Heap.heldBy, cell]
      exact held
  strong {r} r' hr := (strong.reached r (strong.alive_iff.1 hr)).2 r'

theorem begin_inside (strong : v.StrongBelow h alive) (t : Ty C) :
    (v.begin alive t).value.Inside (h.alive (v.refersTo alive)) := by
  have refers {r : Ref} (mem : v.refersTo alive r = true) :
      h.alive (v.refersTo alive) r = true := strong.alive_iff.2 (.root mem)
  rcases strong.within with ⟨t', r, weak⟩ | none
  · rw [begin_value]
    cases v.exactly? t with
    | some p => exact trivial
    | none =>
      cases hs : v.source alive with
      | error reason => exact trivial
      | ok source =>
        -- the only source that a weak reference can be is its object
        have object : source = .object r ∧ alive r = true := by
          rw [Variant.source, weak] at hs
          grind
        obtain ⟨rfl, living⟩ := object
        refine refers ?_
        rw [refersTo, refersWeakly_weak weak, living, Bool.true_and, Bool.or_true]
  · refine Inside.begin_inside ⟨fun r held => refers ?_, none⟩ t
    rw [refersTo, held, Bool.true_or]

end Variant.StrongBelow

/-! ## What a command leaves as it is -/

/-- The conversion that a command begins, drives or gives up. -/
@[simp] def Command.conversion? : Command C → Option String
  | begin future _ _ _ | finish future | cancel future => some future
  | _ => none

namespace Session

variable {K : Converters C} {s s' s'' : Session C} {c : Command C} {future slot : String}

/-- **What stays of a session**: one conversion, and all that was on the heap. -/
structure Keeps (future : String) (s s' : Session C) : Prop where
  pending : s'.pending.lookup future = s.pending.lookup future
  cells : s.heap.cells <+: s'.heap.cells

/-- It is enough that the conversions and the heap stay. -/
theorem Keeps.of_eq (pending : s'.pending = s.pending) (heap : s'.heap = s.heap) :
    s.Keeps future s' :=
  ⟨congrArg _ pending, heap ▸ List.prefix_rfl⟩

theorem Keeps.trans (h : s.Keeps future s') (h' : s'.Keeps future s'') : s.Keeps future s'' :=
  ⟨h'.pending.trans h.pending, h.cells.trans h'.cells⟩

/-- What was on the heap is the same object later. -/
theorem Keeps.object_eq (h : s.Keeps future s') {r : Ref} (lt : r < s.heap.cells.length) :
    s.heap.object r = s'.heap.object r := by
  obtain ⟨more, cells⟩ := h.cells
  rw [Heap.object, Heap.object, ← cells, List.getElem?_append_left lt]

theorem keeps_modify (future : String) (s : Session C) (slot : String)
    (f : Variant C → Variant C) : s.Keeps future (s.modify slot f) := by
  unfold modify
  split
  · exact .of_eq rfl rfl
  · exact .of_eq rfl rfl

theorem keeps_letGo (future : String) (s : Session C) (name : String) :
    s.Keeps future (s.letGo name) := by
  unfold letGo
  split
  · exact .of_eq rfl rfl
  · exact .of_eq rfl rfl

theorem keeps_keep (future : String) (s : Session C) (name : String) (cell : Cell C) :
    s.Keeps future (s.keep name cell) :=
  (keeps_letGo future s name).trans ⟨rfl, List.prefix_append _ _⟩

/-- **A command keeps the conversions** that it is not about. -/
theorem keeps_step (K : Converters C) (s : Session C) (other : c.conversion? ≠ some future) :
    s.Keeps future (s.step K c).value.1 := by
  have differs {begun : String} (about : c.conversion? = some begun) : future ≠ begun :=
    fun same => other (same ▸ about)
  -- reads that are observed change neither
  refine (?_ : s.Keeps future (s.run K c).value.1).trans (.of_eq rfl rfl)
  cases c with
  | make | drop => exact .of_eq rfl rfl
  | assign | assignUnordered | reset => exact keeps_modify ..
  | share | object => exact keeps_keep ..
  | release name => exact keeps_letGo ..
  | assignVariant slot source =>
    rw [run]
    cases s.slot? source with
    | none => exact .of_eq rfl rfl
    | some v => exact keeps_modify ..
  | clone slot source =>
    rw [run]
    cases s.slot? source <;> exact .of_eq rfl rfl
  | swap a b =>
    rw [run]
    cases s.slot? a <;> cases s.slot? b <;> exact .of_eq rfl rfl
  | restartActivity name =>
    rw [run]
    cases s.ref? name <;> exact .of_eq rfl rfl
  | begin begun slot shape elem =>
    rw [run]
    cases s.slot? slot with
    | none => exact .of_eq rfl rfl
    | some v =>
      exact ⟨(lookup_setEntry begun future _ _).trans (if_neg (differs rfl)), List.prefix_rfl⟩
  | finish begun =>
    rw [run]
    cases s.pending.lookup begun with
    | none => exact .of_eq rfl rfl
    | some f =>
      exact ⟨(lookup_dropEntry begun future _).trans (if_neg (differs rfl)), List.prefix_rfl⟩
  | cancel begun =>
    exact ⟨(lookup_dropEntry begun future _).trans (if_neg (differs rfl)), List.prefix_rfl⟩

/-- **The session after more commands**, the latest of which comes first. -/
def since (K : Converters C) (s : Session C) : List (Command C) → Session C
  | [] => s
  | c :: past => ((since K s past).step K c).value.1

/-- So do commands one after the other. -/
theorem keeps_since (K : Converters C) (s : Session C) {meanwhile : List (Command C)}
    (others : ∀ c ∈ meanwhile, c.conversion? ≠ some future) :
    s.Keeps future (s.since K meanwhile) := by
  induction meanwhile with
  | nil => exact .of_eq rfl rfl
  | cons c past ih =>
    obtain ⟨last, before⟩ := List.forall_mem_cons.1 others
    exact (ih before).trans (keeps_step K _ last)

/-! ## The main statement -/

/-- **The outcome of a conversion** that is begun, and driven to its end after more
commands. -/
def outcomeAfter (K : Converters C) (s : Session C) (future slot : String) (shape : Shape)
    (elem : Ty C) (meanwhile : List (Command C)) : Outcome C :=
  (((s.step K (.begin future slot shape elem)).value.1.since K meanwhile).step K
    (.finish future)).value.2

variable {x : Variant C}

/-- Asking a variant for a container keeps the conversion, and changes nothing else. -/
theorem begin_step (K : Converters C) (stored : s.slot? slot = some x) (future : String)
    (shape : Shape) (elem : Ty C) :
    (s.step K (.begin future slot shape elem)).log = (x.begin s.alive (shape.type elem)).log
    ∧ (s.step K (.begin future slot shape elem)).value.1.heap = s.heap
    ∧ (s.step K (.begin future slot shape elem)).value.1.pending.lookup future
      = some (x.pend s.alive shape elem).value := by
  have ran : s.run K (.begin future slot shape elem)
      = x.pend s.alive shape elem >>= fun f =>
        pure ({ s with pending := setEntry future f s.pending }, none) := by
    rw [run, stored]
  unfold step
  rw [ran]
  refine ⟨?_, rfl, (lookup_setEntry future future _ _).trans (if_pos rfl)⟩
  show ((x.begin s.alive (shape.type elem)).log ++ []) ++ [] = _
  rw [List.append_nil, List.append_nil]

/-- What drives a conversion to its end consults the heap as it is then. -/
theorem finish_step (K : Converters C) {f : Pending C}
    (begun : s.pending.lookup future = some f) :
    ∃ held, (s.step K (.finish future)).value.2 = (f.finish ⟨s.heap, K⟩ held).value := by
  unfold step
  rw [run, begun]
  exact ⟨_, rfl⟩

/-- **A begun conversion is a snapshot.** Whatever is done before it is driven – the
variant assigned, exchanged or given up, the caller's references let go of, that
behind a weak reference that was alive among them – it comes to the one outcome that
it has when it is driven at once. To begin it reads nothing. -/
theorem outcomeAfter_eq_at_once (rules : K.Local) (stored : s.slot? slot = some x)
    (strong : x.StrongBelow s.heap s.alive) (future : String) (shape : Shape) (elem : Ty C) :
    (∃ o, s.outcomeAfter K future slot shape elem [] = some o
      ∧ ∀ meanwhile : List (Command C), (∀ c ∈ meanwhile, c.conversion? ≠ some future) →
        s.outcomeAfter K future slot shape elem meanwhile = some o)
    ∧ ∀ r read, Event.began r read ∉ (s.step K (.begin future slot shape elem)).log := by
  obtain ⟨log, heap, begun⟩ := begin_step K stored future shape elem
  have inside : (x.pend s.alive shape elem).value.begun.Inside _ :=
    strong.begin_inside (shape.type elem)
  obtain ⟨o, finished⟩ := Pending.finish_inside rules strong.encloses inside
  have outcome (meanwhile : List (Command C))
      (others : ∀ c ∈ meanwhile, c.conversion? ≠ some future) :
      s.outcomeAfter K future slot shape elem meanwhile = some o := by
    have keeps := keeps_since K (s.step K (.begin future slot shape elem)).value.1 others
    obtain ⟨held, driven⟩ := finish_step K (keeps.pending.trans begun)
    refine driven.trans (finished _ (fun r hr => ?_) held)
    rw [← keeps.object_eq (heap ▸ (Heap.alive_iff.1 hr).1), heap]
  refine ⟨⟨o, outcome [] (List.forall_mem_nil _), outcome⟩, fun r read mem => ?_⟩
  rw [log] at mem
  obtain ⟨d, same⟩ := Variant.begin_log (shape.type elem) _ mem
  cases same

/-- A weak reference to an object with two truth values. -/
def watching : Session .none :=
  after (.refusing .none) [.make "x" (.ofWeak .externalObject 0), .object "o" .slowFlags]

/-- The object is read to its end after the variant and the only other reference to it
are gone. -/
theorem outcomeAfter_eq_at_once_watching :
    watching.outcomeAfter (.refusing .none) "f" "x" (.sequence .vector) .bool
        [.release "o", .drop "x"]
      = some (.ok (.seq .vector .bool [.bool true, .bool false])) := by
  have strong : (Variant.ofWeak .externalObject 0).StrongBelow watching.heap watching.alive := by
    refine ⟨.inl ⟨_, _, rfl⟩, fun r path => ?_⟩
    have first : r = 0 := by
      induction path with
      | @root r mem =>
        have mem : (r == 0 && watching.alive r) = true := mem
        exact beq_iff_eq.1 (Bool.and_eq_true_iff.1 mem).1
      | @held r s path holds ih =>
        have nothing : watching.heap.heldBy 0 r = false := rfl
        rw [ih, nothing] at holds
        cases holds
    subst first
    exact ⟨by decide, fun r' => rfl⟩
  obtain ⟨⟨o, atOnce, later⟩, -⟩ := outcomeAfter_eq_at_once (fun tag => PEmpty.elim tag)
    (rfl : watching.slot? "x" = _) strong "f" (.sequence .vector) .bool
  rw [later _ (by simp), ← atOnce]
  rfl

end Session

end DynValue
