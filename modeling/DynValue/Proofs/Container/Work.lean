import DynValue.Proofs.Container.Lives
import DynValue.Proofs.Container.Termination
import Mathlib.Tactic.Abel

/-!
# The work of a container conversion

A container conversion that comes upon an object begins a **run** over it: it asks
for the size, and reads no more entries than the object reported. The entries are
converted to the element type, so a run within a run is for a smaller type, and there
are never more runs one within the other than the target is nested, even if an object
refers to itself.

All reads of a conversion that is driven to its end are those of such runs
(`Pending.exists_runs`), and it ends after as many polls as `Pending.pollLimit` says
(`Variant.container_bounded_work`).
-/

namespace DynValue

open Schedule

variable {C : CallerTypes}

/-! ## Reads among events -/

/-- The read that an event begins, if it does. -/
def Event.read? : Event C → Option (Ref × Read)
  | began r read => some (r, read)
  | _ => none

/-- **The reads begun** among events. -/
def Event.reads (events : List (Event C)) : List (Ref × Read) := events.filterMap Event.read?

theorem Event.reads_append (events more : List (Event C)) :
    reads (events ++ more) = reads events ++ reads more :=
  List.filterMap_append

theorem Event.reads_perm {events more : List (Event C)} (h : events.Perm more) :
    (reads events).Perm (reads more) :=
  h.filterMap _

theorem OnlyDiagnostics.reads {events : List (Event C)} (h : OnlyDiagnostics events) :
    Event.reads events = [] := by
  refine List.filterMap_eq_nil_iff.2 fun event mem => ?_
  obtain ⟨d, rfl⟩ := h event mem
  rfl

/-! ## Runs -/

/-- **A run over an object**: the container that is made of it, and the reads of its
entries. -/
structure Run (C : CallerTypes) where
  object : Ref
  shape : Shape
  elem : Ty C
  entries : List Read

namespace Run

/-- The type of the container. -/
def type (run : Run C) : Ty C := run.shape.type run.elem

/-- **The reads of a run**: one for the size, and those of entries. -/
def reads (run : Run C) : List (Ref × Read) :=
  (run.object, run.shape.sizeRead) :: run.entries.map fun read => (run.object, read)

/-- **A run reads what the object has reported**, and no more entries than that. -/
structure Modest (S : Setting C) (run : Run C) : Prop where
  few : run.entries.length
    ≤ (Contents.ofObject run.shape (S.heap.object run.object)).count
  reported : ∀ read ∈ run.entries, ∃ n,
    (Contents.ofObject run.shape (S.heap.object run.object)).read? n = some read

/-- **Runs nested as a type is.** For a container there is at most one run over an object,
with runs for the element type within, no more than entries were read; or there are
runs for the element type within a list or dictionary of at most the given breadth. -/
inductive Nested (breadth : Nat) : Ty C → List (Run C) → Prop
  | none (t : Ty C) : Nested breadth t []
  | inMemory (shape : Shape) {t : Ty C} {inner : List (List (Run C))}
      (few : inner.length ≤ breadth) (each : ∀ runs ∈ inner, Nested breadth t runs) :
      Nested breadth (shape.type t) inner.flatten
  | object (run : Run C) {inner : List (List (Run C))} (size : run.entries.length ≤ breadth)
      (few : inner.length ≤ run.entries.length)
      (each : ∀ runs ∈ inner, Nested breadth run.elem runs) :
      Nested breadth run.type (run :: inner.flatten)

/-- How many runs there can be for a type. -/
def bound (breadth : Nat) : Ty C → Nat
  | .seq _ t => 1 + breadth * bound breadth t
  | .map _ t => 1 + breadth * bound breadth t
  | _ => 0

theorem bound_type (breadth : Nat) (shape : Shape) (t : Ty C) :
    bound breadth (shape.type t) = 1 + breadth * bound breadth t := by
  cases shape <;> rfl

variable {breadth : Nat} {t : Ty C} {runs : List (Run C)}

/-- **There are only so many runs**, however objects refer to each other. -/
theorem Nested.length_le (h : Nested breadth t runs) : runs.length ≤ bound breadth t := by
  have flatten_le {n m : Nat} {inner : List (List (Run C))} (few : inner.length ≤ n)
      (each : ∀ runs ∈ inner, runs.length ≤ m) : inner.flatten.length ≤ n * m := by
    rw [List.length_flatten]
    have sum := List.sum_le_card_nsmul (inner.map List.length) m (List.forall_mem_map.2 each)
    rw [List.length_map] at sum
    exact sum.trans (Nat.mul_le_mul_right m few)
  induction h with
  | none t => exact Nat.zero_le _
  | inMemory shape few each ih =>
    rw [bound_type]
    exact (flatten_le few ih).trans (Nat.le_add_left _ _)
  | object run size few each ih =>
    rw [type, bound_type, List.length_cons, Nat.add_comm]
    exact Nat.add_le_add_left (flatten_le (few.trans size) ih) 1

end Run

/-- **The containers that a type is nested of**, the outermost first. -/
def Ty.containers : Ty C → List (Ty C)
  | .seq k t => .seq k t :: containers t
  | .map k t => .map k t :: containers t
  | _ => []

theorem Shape.containers_type (shape : Shape) (t : Ty C) :
    (shape.type t).containers = shape.type t :: t.containers := by
  cases shape <;> rfl

/-- Each run makes one of these containers. -/
theorem Run.Nested.type_mem {breadth : Nat} {t : Ty C} {runs : List (Run C)}
    (h : Nested breadth t runs) : ∀ run ∈ runs, run.type ∈ t.containers := by
  have inside {inner : List (List (Run C))} {t : Ty C} (shape : Shape)
      (each : ∀ runs ∈ inner, ∀ run ∈ runs, run.type ∈ t.containers) :
      ∀ run ∈ inner.flatten, run.type ∈ (shape.type t).containers := by
    intro run mem
    obtain ⟨runs, hruns, hrun⟩ := List.mem_flatten.1 mem
    rw [shape.containers_type]
    exact List.mem_cons_of_mem _ (each runs hruns run hrun)
  induction h with
  | none t => exact List.forall_mem_nil _
  | inMemory shape few each ih => exact inside shape ih
  | object run size few each ih =>
    refine List.forall_mem_cons.2 ⟨?_, inside run.shape ih⟩
    rw [type, Shape.containers_type]
    exact List.mem_cons_self

/-! ## The runs of a conversion -/

/-- **Events whose reads are those of runs**, nested as a type is. -/
structure Run.Account (S : Setting C) (breadth : Nat) (t : Ty C) (events : List (Event C))
    (runs : List (Run C)) : Prop where
  reads : (Event.reads events).Perm (runs.flatMap Run.reads)
  modest : ∀ run ∈ runs, run.Modest S
  nested : Run.Nested breadth t runs

/-- **Conversions read in runs**: so do all of variants up to a breadth. -/
def Conversion.InRuns {c : Conversion C} (S : Setting C) (breadth : Nat) (t : Ty C)
    (k : c.Progress (Event C)) : Prop :=
  ∀ {v : Variant C} {reports o}, v.breadth ≤ breadth → k.LifeOf v reports o →
    ∃ runs, Run.Account S breadth t reports runs

/-- Without reads there are no runs. -/
theorem Run.Account.none {S : Setting C} {breadth : Nat} (t : Ty C) {events : List (Event C)}
    (h : Event.reads events = []) : Run.Account S breadth t events [] where
  reads := h ▸ .refl _
  modest := List.forall_mem_nil _
  nested := .none t

namespace Stage

variable {S : Setting C} {shape : Shape} {t : Ty C} {elem : Conversion C}
  {k : elem.Progress (Event C)} {r : Ref} {reports : List (Event C)} {breadth : Nat}
  {o : Option (Except (CastError C) (Payload C))}

/-- The diagnostic of a failure is no read. -/
theorem reads_afterwards (read : Option Read) (o : Option (Except (CastError C) (Payload C))) :
    Event.reads (Entry.afterwards read o) = [] := by
  rcases o with _ | (e | p)
  · rfl
  · have only := Entry.failure?_log read e
    rw [List.map_id] at only
    exact only.reads
  · rfl

/-- **The entry of an object** is read once at most, and then its conversion reads in
runs. -/
theorem reads_fresh (inner : Conversion.InRuns S breadth t k)
    (objects : S.heap.breadth ≤ breadth) {contents : Contents}
    (life : (Entry.course S id k).Lifetime (Entry.FreshOf r contents) reports o) :
    Event.reads reports = []
      ∨ ∃ read runs, (∃ n, contents.read? n = some read)
        ∧ (Event.reads reports).Perm ((r, read) :: runs.flatMap Run.reads)
        ∧ (∀ run ∈ runs, run.Modest S) ∧ Run.Nested breadth t runs := by
  rcases Entry.life_fresh life with ⟨-, rfl⟩ | ⟨read, n, found, ⟨-, rfl⟩ | ⟨own, converted, rfl⟩⟩
  · exact .inl rfl
  · exact .inr ⟨read, [], ⟨n, found⟩, .refl _, List.forall_mem_nil _, .none t⟩
  · obtain ⟨runs, account⟩ :=
      inner ((S.heap.breadth_answer_le r read).trans objects) converted
    refine .inr ⟨read, runs, ⟨n, found⟩, ?_, account.modest, account.nested⟩
    show ((r, read) :: Event.reads (own ++ Entry.afterwards (some read) o)).Perm _
    rw [Event.reads_append, reads_afterwards, List.append_nil]
    exact account.reads.cons _

/-- **All entries of an object** are read once at most, and each conversion reads in
runs. -/
theorem reads_object (inner : Conversion.InRuns S breadth t k)
    (objects : S.heap.breadth ≤ breadth) {contents : Contents}
    (lives : List (List (Event C) × Option (Except (CastError C) (Payload C))))
    (each : ∀ life ∈ lives,
      (Entry.course S id k).Lifetime (Entry.FreshOf r contents) life.1 life.2) :
    ∃ (entries : List Read) (inner : List (List (Run C))), entries.length ≤ lives.length
      ∧ inner.length = entries.length
      ∧ (∀ read ∈ entries, ∃ n, contents.read? n = some read)
      ∧ (Event.reads (lives.flatMap Prod.fst)).Perm
        (entries.map (fun read => (r, read)) ++ inner.flatten.flatMap Run.reads)
      ∧ ∀ runs ∈ inner, (∀ run ∈ runs, run.Modest S) ∧ Run.Nested breadth t runs := by
  induction lives with
  | nil =>
    exact ⟨[], [], Nat.le_refl _, rfl, List.forall_mem_nil _, .refl _, List.forall_mem_nil _⟩
  | cons life lives ih =>
    obtain ⟨first, rest⟩ := List.forall_mem_cons.1 each
    obtain ⟨entries, within, few, same, reported, reads, nested⟩ := ih rest
    rcases reads_fresh inner objects first with none | ⟨read, runs, found, once, modest, nest⟩
    · refine ⟨entries, within, Nat.le_succ_of_le few, same, reported, ?_, nested⟩
      rw [List.flatMap_cons, Event.reads_append, none, List.nil_append]
      exact reads
    · refine ⟨read :: entries, runs :: within, Nat.succ_le_succ few, congrArg (· + 1) same,
        List.forall_mem_cons.2 ⟨found, reported⟩, ?_,
        List.forall_mem_cons.2 ⟨⟨modest, nest⟩, nested⟩⟩
      rw [List.flatMap_cons, Event.reads_append]
      rw [← Multiset.coe_eq_coe] at once reads ⊢
      simp only [List.map_cons, List.flatten_cons, List.flatMap_append, ← Multiset.coe_add,
        List.cons_append, ← Multiset.cons_coe] at once reads ⊢
      rw [once, reads, Multiset.cons_add]
      congr 1
      abel

/-- **Entries in memory** read in runs of their conversions only. -/
theorem reads_inMemory (inner : Conversion.InRuns S breadth t k) {items : List (Variant C)}
    (parts : ∀ v ∈ items, v.breadth ≤ breadth)
    (lives : List (List (Event C) × Option (Except (CastError C) (Payload C))))
    (each : ∀ life ∈ lives,
      (Entry.course S id k).Lifetime (Entry.BornOf k items) life.1 life.2) :
    ∃ inner : List (List (Run C)), inner.length = lives.length
      ∧ (Event.reads (lives.flatMap Prod.fst)).Perm (inner.flatten.flatMap Run.reads)
      ∧ ∀ runs ∈ inner, (∀ run ∈ runs, run.Modest S) ∧ Run.Nested breadth t runs := by
  induction lives with
  | nil => exact ⟨[], rfl, .refl _, List.forall_mem_nil _⟩
  | cons life lives ih =>
    obtain ⟨first, rest⟩ := List.forall_mem_cons.1 each
    obtain ⟨within, same, reads, nested⟩ := ih rest
    have here : ∃ runs, Run.Account S breadth t life.1 runs := by
      rcases Entry.life_inMemory first with ⟨-, none⟩ | ⟨v, mem, converted⟩
      · exact ⟨[], .none t (congrArg Event.reads none)⟩
      · exact inner (parts v mem) converted
    obtain ⟨runs, account⟩ := here
    refine ⟨runs :: within, congrArg (· + 1) same, ?_,
      List.forall_mem_cons.2 ⟨⟨account.modest, account.nested⟩, nested⟩⟩
    rw [List.flatMap_cons, Event.reads_append, List.flatten_cons, List.flatMap_append]
    exact account.reads.append reads

/-- **The story of a container** is one of runs. -/
theorem story_runs (inner : Conversion.InRuns S breadth t k) (objects : S.heap.breadth ≤ breadth)
    {b : Begun C} (within : b.breadth ≤ breadth) (story : Story S shape t k b reports o) :
    ∃ runs, Run.Account S breadth (shape.type t) reports runs := by
  have inMemory {items : List (Variant C)} {reports : List (Event C)}
      {o : Option (Except (CastError C) (Payload C))} {d : Diagnostic C}
      {lives : List (List (Event C) × Option (Except (CastError C) (Payload C)))}
      (made : (Entry.course S id k).MadeOf (Entry.BornOf k items) reports o lives)
      (few : lives.length ≤ breadth) (parts : ∀ v ∈ items, v.breadth ≤ breadth) :
      ∃ runs, Run.Account S breadth (shape.type t) (.diagnostic d :: reports) runs := by
    obtain ⟨runs, same, reads, nested⟩ := reads_inMemory inner parts lives made.each
    refine ⟨runs.flatten, (Event.reads_perm made.perm).trans reads, ?_,
      .inMemory shape (same.trans_le few) fun runs mem => (nested runs mem).2⟩
    intro run mem
    obtain ⟨runs, hruns, hrun⟩ := List.mem_flatten.1 mem
    exact (nested runs hruns).1 run hrun
  cases story with
  | untouched | settled | refusesList | refusesDictionary => exact ⟨[], .none _ rfl⟩
  | unanswered r =>
    refine ⟨[⟨r, shape, t, []⟩], .refl _, List.forall_mem_singleton.2 ⟨Nat.zero_le _, ?_⟩,
      .object ⟨r, shape, t, []⟩ (Nat.zero_le _) (Nat.le_refl _) (List.forall_mem_nil _)⟩
    exact List.forall_mem_nil _
  | @object r reports lives o made few =>
    obtain ⟨entries, runs, fewer, same, reported, reads, nested⟩ :=
      reads_object inner objects lives made.each
    have size := fewer.trans few
    refine ⟨⟨r, shape, t, entries⟩ :: runs.flatten, ?_, ?_,
      .object ⟨r, shape, t, entries⟩ (size.trans ((S.heap.count_le r shape).trans objects))
        same.le fun runs mem => (nested runs mem).2⟩
    · exact ((Event.reads_perm made.perm).trans reads).cons _
    · refine List.forall_mem_cons.2 ⟨⟨size, reported⟩, fun run mem => ?_⟩
      obtain ⟨runs, hruns, hrun⟩ := List.mem_flatten.1 mem
      exact (nested runs hruns).1 run hrun
  | list ordered made few =>
    exact inMemory made (few.trans ((le_foldl_max _ _).trans within)) fun v mem =>
      (le_foldl_max_of_mem (List.mem_map_of_mem mem)).trans within
  | dictionary keyed made few =>
    refine inMemory made (few.trans ((le_foldl_max _ _).trans within))
      (List.forall_mem_map.2 fun e mem => ?_)
    exact (le_foldl_max_of_mem (List.mem_map_of_mem
      (f := fun e : String × Variant C => e.2.breadth) mem)).trans within

/-- **The conversion of a variant to a container** reads in runs. -/
theorem progress_inRuns (inner : Conversion.InRuns S breadth t k)
    (objects : S.heap.breadth ≤ breadth) :
    Conversion.InRuns S breadth (shape.type t) (progress S shape t id k) := by
  intro v reports o within life
  obtain ⟨alive, rest, rfl, story⟩ := Conversion.container_life life
  obtain ⟨runs, account⟩ :=
    story_runs inner objects ((v.begin_breadth_le alive (shape.type t)).trans within) story
  refine ⟨runs, ?_, account.modest, account.nested⟩
  rw [Event.reads_append, (Variant.begin_log (shape.type t)).reads, List.nil_append]
  exact account.reads

end Stage

/-- **Conversions to every type** read in runs, by induction on the type. -/
theorem Conversion.steps_inRuns {S : Setting C} (quiet : S.Quiet) {breadth : Nat}
    (objects : S.heap.breadth ≤ breadth) (t : Ty C) : InRuns S breadth t (steps S t) := by
  have scalar (t : Ty C) : InRuns S breadth t ((Conversion.scalar S t).polls id) := by
    intro v reports o _ life
    obtain ⟨alive, rfl, -⟩ := scalar_life life
    exact ⟨[], .none t (Variant.convert_log quiet t).reads⟩
  induction t with
  | seq k t ih => exact Stage.progress_inRuns ih objects
  | map k t ih => exact Stage.progress_inRuns ih objects
  | _ => exact scalar _

/-! ## The main statement -/

/-- **A kept conversion reads in runs** over objects, no matter how it was polled. -/
theorem Pending.exists_runs {S : Setting C} (quiet : S.Quiet) {breadth : Nat}
    (objects : S.heap.breadth ≤ breadth) {f : Pending C} (within : f.begun.breadth ≤ breadth)
    {surroundings : List RefSet} {outcome : Except (CastError C) (Payload C)}
    (ended : (f.pollAll S surroundings).value = some outcome) :
    ∃ runs, Run.Account S breadth f.type (f.pollAll S surroundings).log runs :=
  Stage.story_runs (Conversion.steps_inRuns quiet objects f.elem) objects within (story ended)

namespace Variant

/-- **A container conversion ends in bounded work**, of any variant, whatever objects
refer to: it takes no more polls than its limit says, with whatever is held elsewhere at
each, and then all it has read is accounted for by runs over objects. A run
asks for the size once and then reads no more entries than the object has reported,
each an entry it has; and runs are nested as the type is, so each makes one of the
containers that the type is nested of, and the number of runs is bounded. -/
theorem container_bounded_work {S : Setting C} (quiet : S.Quiet) (alive : RefSet)
    (shape : Shape) (t : Ty C) (v : Variant C) (surroundings : List RefSet) :
    let f := v.pend alive shape t
    let breadth := max S.heap.breadth v.breadth
    let driven := f.value.pollAll S surroundings
    f.value.pollLimit S ≤ surroundings.length →
    ∃ outcome runs, driven.value = some outcome
      ∧ (Event.reads (f.log ++ driven.log)).Perm (runs.flatMap Run.reads)
      ∧ (∀ run ∈ runs, run.Modest S)
      ∧ Run.Nested breadth (shape.type t) runs
      ∧ runs.length ≤ Run.bound breadth (shape.type t)
      ∧ ∀ run ∈ runs, run.type ∈ (shape.type t).containers := by
  intro f breadth driven enough
  obtain ⟨outcome, ended⟩ := f.value.exists_outcome S enough
  have within : f.value.begun.breadth ≤ breadth :=
    (v.begin_breadth_le alive (shape.type t)).trans (Nat.le_max_right _ _)
  obtain ⟨runs, account⟩ := Pending.exists_runs quiet (Nat.le_max_left _ _) within ended
  have asked : Event.reads f.log = [] := by
    have log : f.log = (v.begin alive (shape.type t)).log := List.append_nil _
    rw [log, (begin_log (shape.type t)).reads]
  refine ⟨outcome, runs, ended, ?_, account.modest, account.nested, account.nested.length_le,
    account.nested.type_mem⟩
  rw [Event.reads_append, asked, List.nil_append]
  exact account.reads

end Variant

/-- An object with two elements, each of which is the object itself. -/
def ExternalObject.ofItself : ExternalObject CallerTypes.none where
  length := 2
  elements := [.ofObject 0, .ofObject 0]
  keys := []
  properties := []
  delay := 1
  delays := []

/-- It is run over three times at most for a list of lists of numbers, which takes no
more than ten polls. -/
theorem Variant.container_bounded_work_ofItself :
    let S : Setting .none := ⟨⟨[.object .ofItself]⟩, .refusing .none⟩
    let f := (ofObject 0).pend .none (.sequence .vector) (.seq .vector (.int .widestSigned))
    let driven := f.value.pollAll S (List.replicate 10 .none)
    f.value.pollLimit S ≤ 10
      ∧ ∃ outcome, ∃ runs : List (Run .none), driven.value = some outcome
        ∧ (Event.reads (f.log ++ driven.log)).Perm (runs.flatMap Run.reads)
        ∧ (∀ run ∈ runs, run.Modest S) ∧ runs.length ≤ 3 := by
  intro S f driven
  have limit : f.value.pollLimit S ≤ 10 := by decide
  obtain ⟨outcome, runs, ended, reads, modest, -, few, -⟩ :=
    container_bounded_work (S := S) (fun _ _ _ => .nil) .none (.sequence .vector)
      (.seq .vector (.int .widestSigned)) (ofObject 0) (List.replicate 10 .none) limit
  exact ⟨limit, outcome, runs, ended, reads, modest, few⟩

end DynValue
