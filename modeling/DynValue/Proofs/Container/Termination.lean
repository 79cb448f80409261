import DynValue.Proofs.Container.Completion
import DynValue.Proofs.Container.Load
import DynValue.Proofs.Schedule.Termination

/-!
# Container conversions end

A conversion is pending only as long as some read within is, so however often it is
polled while other things are done in between, it ends (`Conversion.of_endsWithin`).
The bound is that of `pollBound`: objects may refer to each other as they like, and
to themselves, since the conversion of an answer is one to the element type, which is
a part of the type of the container.
-/

namespace DynValue

open Schedule

variable {C : CallerTypes}

/-- **The conversion of a variant is pending so often at most**, whatever is held
elsewhere at its start and at each poll. -/
def Conversion.EndsWithin (c : Conversion C) (n : Nat) (v : Variant C) : Prop :=
  ∀ R, c.kind.EndsWithin n (c.start R v).value

/-- A task is pending as often as one that polls the same. -/
theorem Schedule.TaskKind.EndsWithin.of_same_poll {ε φ τ α : Type} {kind : TaskKind ε φ τ α}
    {n : Nat} {t : τ}
    (h : ∀ R, ∃ u, kind.EndsWithin n u ∧ (kind.poll R t).value = (kind.poll R u).value) :
    kind.EndsWithin n t := by
  refine .of_polls fun R t' polled => ?_
  obtain ⟨u, ends, same⟩ := h R
  obtain ⟨m, rfl, rest⟩ := ends.of_pending (same.symm.trans polled)
  exact ⟨m, Nat.lt_succ_self m, rest⟩

/-! ## Entries -/

namespace Entry

variable {S : Setting C} {elem : Conversion C} {n : Nat} {v : Variant C}

theorem converting_endsWithin {s : elem.State} (h : elem.kind.EndsWithin n s)
    (read : Option Read) : (Entry.kind S elem).EndsWithin n (.converting read s) := by
  induction n generalizing s with
  | zero =>
    intro R e' polled
    cases hx : (elem.poll R s).value with
    | pending s' => exact h R s' hx
    | ready o => cases (value_of_ready hx).symm.trans polled
  | succ n ih =>
    intro R e' polled
    cases hx : (elem.poll R s).value with
    | pending s' =>
      obtain rfl := Poll.pending.inj ((value_of_pending hx).symm.trans polled)
      exact ih (h R s' hx)
    | ready o => cases (value_of_ready hx).symm.trans polled

theorem stored_endsWithin (h : elem.EndsWithin n v) :
    (Entry.kind S elem).EndsWithin n (.stored v) :=
  .of_same_poll fun R => ⟨_, converting_endsWithin (h R) none, rfl⟩

/-- **An entry that is read** is pending as often as the read, then as often as the
conversion of the answer. -/
theorem reading_endsWithin {r : Ref} {read : Read}
    (h : elem.EndsWithin n (answer (S.heap.object r) read)) (left : Nat) :
    (Entry.kind S elem).EndsWithin (left + n) (.reading r read (some left)) := by
  induction left with
  | zero =>
    rw [Nat.zero_add]
    exact .of_same_poll fun R => ⟨_, converting_endsWithin (h R) (some read), rfl⟩
  | succ left ih =>
    rw [Nat.add_right_comm]
    intro R e' polled
    obtain rfl := Poll.pending.inj polled
    exact ih

theorem fresh_endsWithin {r : Ref} {read : Read}
    (h : elem.EndsWithin n (answer (S.heap.object r) read)) :
    (Entry.kind S elem).EndsWithin ((S.heap.object r).delayOf read + n)
      (.reading r read none) :=
  .of_same_poll fun _ => ⟨_, reading_endsWithin h _, rfl⟩

end Entry

/-! ## Containers -/

namespace Stage

variable {S : Setting C} {shape : Shape} {t : Ty C} {elem : Conversion C} {unit : Nat}
  {r : Ref}

/-- A container conversion as tasks. -/
abbrev kind (S : Setting C) (shape : Shape) (t : Ty C) (elem : Conversion C) :
    TaskKind (Event C) (CastError C) (Stage C elem.State) (Payload C) :=
  (Conversion.container S shape t elem).kind

/-- How often a conversion can be pending yet, if the entries that are not begun can be so
often. -/
noncomputable def weight (S : Setting C) (elem : Conversion C) (unit : Nat) :
    Stage C elem.State → Nat
  | .reading _ contents w => w.weight (Entry.kind S elem) contents.count unit
  | .joining _ join => (Entry.kind S elem).mostAll join.tasks
  | _ => 0

/-- **Reading the entries of an object** is pending as often as the entries are. -/
theorem reading_endsWithin {contents : Contents}
    (entries : ∀ n (e : Entry C elem.State), contents.entries r n = some e →
      (Entry.kind S elem).EndsWithin unit e) :
    (kind S shape t elem).EndsWithin (contents.count * unit) (.reading r contents .start) := by
  refine (TaskKind.endsWithin_of_measure
    (fun stage : Stage C elem.State => ∃ w : Window _ _ _, stage = .reading r contents w
      ∧ w.Bounded (Entry.kind S elem) contents.count (contents.entries r))
    (weight S elem unit) ?_ ⟨.start, rfl, .start fun _ => Contents.entries_eq_none_iff.2⟩).mono ?_
  · rintro _ stage R ⟨w, rfl, bounded⟩ polled
    have value : (pollReading S shape t elem R r contents w).value = .pending stage := polled
    rw [pollReading_value] at value
    cases run : (w.run (Entry.kind S elem) windowWidth (contents.entries r)
        (RefSet.union R (RefSet.single r)) (contents.count - w.delivered.size + 1)).value with
    | pending w' =>
      rw [run] at value
      obtain rfl := Poll.pending.inj value
      obtain ⟨kept, less⟩ := bounded.run_pending entries (Nat.lt_succ_self _) run
      exact ⟨⟨w', rfl, kept⟩, less⟩
    | ready o =>
      rw [run] at value
      cases o <;> cases value
  · exact (Nat.zero_add _).le

/-- **An object** is asked for its size before. -/
theorem object_endsWithin (unit : Nat)
    (entries : ∀ n (e : Entry C elem.State),
      (Contents.ofObject shape (S.heap.object r)).entries r n = some e →
      (Entry.kind S elem).EndsWithin unit e) :
    (kind S shape t elem).EndsWithin ((S.heap.object r).delayOf shape.sizeRead
      + (Contents.ofObject shape (S.heap.object r)).count * unit)
      (.begun (.sourced (.object r))) := by
  have sizing (left : Nat) : (kind S shape t elem).EndsWithin
      (left + (Contents.ofObject shape (S.heap.object r)).count * unit) (.sizing r left) := by
    induction left with
    | zero =>
      rw [Nat.zero_add]
      exact .of_same_poll fun _ => ⟨_, reading_endsWithin entries, rfl⟩
    | succ left ih =>
      rw [Nat.add_right_comm]
      intro R stage polled
      obtain rfl := Poll.pending.inj polled
      exact ih
  exact .of_same_poll fun _ => ⟨_, sizing _, rfl⟩

/-- **Converting entries in memory** is pending as often as they are. -/
theorem joining_endsWithin (unit : Nat) {keys : List String} {tasks : List (Entry C elem.State)}
    (entries : ∀ e ∈ tasks, (Entry.kind S elem).EndsWithin unit e) :
    (kind S shape t elem).EndsWithin (tasks.length * unit) (.joining keys (.ofList tasks)) := by
  refine (TaskKind.endsWithin_of_measure
    (fun stage : Stage C elem.State => ∃ join : Join _ _ _, stage = .joining keys join
      ∧ join.Bounded (Entry.kind S elem))
    (weight S elem unit) ?_
    ⟨.ofList tasks, rfl, .ofList fun e mem => ⟨unit, entries e mem⟩⟩).mono ?_
  · rintro _ stage R ⟨join, rfl, bounded⟩ polled
    have value : (pollJoining S shape t elem R keys join).value = .pending stage := polled
    rw [pollJoining_value] at value
    cases run : (join.poll (Entry.kind S elem) R).value with
    | pending join' =>
      rw [run] at value
      obtain rfl := Poll.pending.inj value
      obtain ⟨kept, less⟩ := bounded.poll_pending run
      exact ⟨⟨join', rfl, kept⟩, less⟩
    | ready o =>
      rw [run] at value
      cases o <;> cases value
  · show (Entry.kind S elem).mostAll (Join.ofList tasks : Join _ _ (Payload C)).tasks ≤ _
    rw [Join.tasks_ofList]
    exact TaskKind.mostAll_le entries

/-- The items of a list start as they would alone. -/
theorem startsAll_endsWithin {items : List (Variant C)} {reports : List (Event C)}
    {states : List elem.State} (starts : StartsAll (elem.polls id) items reports states)
    (each : ∀ v ∈ items, elem.EndsWithin unit v) :
    (∀ s ∈ states, elem.kind.EndsWithin unit s) ∧ states.length = items.length := by
  induction starts with
  | nil => exact ⟨List.forall_mem_nil _, rfl⟩
  | cons first _ ih =>
    obtain ⟨here, behind⟩ := List.forall_mem_cons.1 each
    obtain ⟨R, rfl, -⟩ := first
    obtain ⟨ended, length⟩ := ih behind
    exact ⟨List.forall_mem_cons.2 ⟨here R, ended⟩, congrArg (· + 1) length⟩

/-- **The conversion of a source** with entries that are converted so is pending no more
often than the bound says. -/
theorem sourced_endsWithin {source : Source C} {breadth bound : Nat}
    (objects : S.heap.breadth ≤ breadth) (parts : source.breadth ≤ breadth)
    (inner : ∀ v : Variant C, v.breadth ≤ breadth → elem.EndsWithin bound v) :
    (kind S shape t elem).EndsWithin
      (S.heap.delayBound + breadth * (S.heap.delayBound + bound))
      (.begun (.sourced source)) := by
  have never {o : Except (CastError C) (Payload C)} {n : Nat}
      (ready : ∀ R, ((kind S shape t elem).poll R (.begun (.sourced source))).value = .ready o) :
      (kind S shape t elem).EndsWithin n (.begun (.sourced source)) :=
    .of_polls fun R stage polled => nomatch (ready R).symm.trans polled
  have enough {count : Nat} (le : count ≤ breadth) :
      count * bound ≤ S.heap.delayBound + breadth * (S.heap.delayBound + bound) :=
    (Nat.mul_le_mul le (Nat.le_add_left _ _)).trans (Nat.le_add_left _ _)
  cases source with
  | object r =>
    refine (object_endsWithin (S.heap.delayBound + bound) fun n e next => ?_).mono
      (Nat.add_le_add (S.heap.delayOf_le r _)
        (Nat.mul_le_mul_right _ ((S.heap.count_le r shape).trans objects)))
    obtain ⟨read, -, rfl⟩ := Option.map_eq_some_iff.1 next
    refine (Entry.fresh_endsWithin (inner _ ?_)).mono
      (Nat.add_le_add_right (S.heap.delayOf_le r read) _)
    exact (S.heap.breadth_answer_le r read).trans objects
  | list items =>
    cases shape with
    | mapping k => exact never fun R => rfl
    | sequence k =>
      refine .of_same_poll fun R => ?_
      have covers : (elem.polls id).Covers id := elem.polls_covers fun _ => rfl
      obtain ⟨reports, states, -, value, starts⟩ := startAll_starts covers R [] items
      obtain ⟨ended, length⟩ := startsAll_endsWithin starts fun v mem => inner v
        ((le_foldl_max_of_mem (List.mem_map_of_mem mem)).trans parts)
      refine ⟨.joining [] (.ofList (states.map (.converting none))), ?_, ?_⟩
      · refine (joining_endsWithin bound ?_).mono ?_
        · exact List.forall_mem_map.2 fun s mem =>
            Entry.converting_endsWithin (ended s mem) none
        · rw [List.length_map, length]
          exact enough ((le_foldl_max _ _).trans parts)
      · show (startAll elem R [] items >>= fun states => pollJoining S (.sequence k) t elem R []
          (.ofList (states.map (.converting none)))).value = _
        rw [Logged.value_bind, value]
        rfl
  | dictionary entries =>
    cases shape with
    | sequence k => exact never fun R => rfl
    | mapping k =>
      refine .of_same_poll fun R => ⟨.joining (entries.map Prod.fst)
        (.ofList (entries.map fun e => .stored e.2)), ?_, rfl⟩
      refine (joining_endsWithin bound ?_).mono ?_
      · refine List.forall_mem_map.2 fun e mem => Entry.stored_endsWithin (inner _ ?_)
        exact (le_foldl_max_of_mem (List.mem_map_of_mem
          (f := fun e : String × Variant C => e.2.breadth) mem)).trans parts
      · rw [List.length_map]
        exact enough ((le_foldl_max _ _).trans parts)

/-- What is settled is ready at once. -/
theorem settled_endsWithin (o : Except (CastError C) (Payload C)) (n : Nat) :
    (kind S shape t elem).EndsWithin n (.begun (.settled o)) :=
  .of_polls fun _ _ polled => nomatch polled

end Stage

/-- A source is no broader than its variant. -/
theorem Variant.source_breadth_le {v : Variant C} {alive : RefSet} {source : Source C}
    (found : v.source alive = .ok source) : source.breadth ≤ v.breadth := by
  cases source with
  | object r => exact Nat.zero_le _
  | list items =>
    obtain ⟨length, parts⟩ := partOf_list found
    exact foldl_max_le length (List.forall_mem_map.2 fun w mem => (parts w mem).breadth)
  | dictionary entries =>
    obtain ⟨length, parts⟩ := partOf_dictionary found
    exact foldl_max_le length (List.forall_mem_map.2 fun e mem => (parts e mem).breadth)

/-- Nor is what a conversion starts from. -/
theorem Variant.begin_breadth_le (v : Variant C) (alive : RefSet) (t : Ty C) :
    (v.begin alive t).value.breadth ≤ v.breadth := by
  rw [begin_value]
  split
  · exact Nat.zero_le _
  · split
    · exact source_breadth_le ‹_›
    · exact Nat.zero_le _

namespace Conversion

variable {S : Setting C}

/-- **The conversion to a container** ends if that of its elements does. -/
theorem container_endsWithin {shape : Shape} {t : Ty C} {elem : Conversion C}
    {breadth bound : Nat} (objects : S.heap.breadth ≤ breadth)
    (inner : ∀ v : Variant C, v.breadth ≤ breadth → elem.EndsWithin bound v) {v : Variant C}
    (hv : v.breadth ≤ breadth) : (container S shape t elem).EndsWithin
      (S.heap.delayBound + breadth * (S.heap.delayBound + bound)) v := by
  intro R
  show (Stage.kind S shape t elem).EndsWithin _
    (.begun (v.begin (S.heap.alive R) (shape.type t)).value)
  rw [Variant.begin_value]
  split
  · exact Stage.settled_endsWithin _ _
  · split
    · exact Stage.sourced_endsWithin objects ((Variant.source_breadth_le ‹_›).trans hv) inner
    · exact Stage.settled_endsWithin _ _

/-- **The conversion to any type** ends within its bound: by induction on the type,
whatever the objects refer to. -/
theorem of_endsWithin {breadth : Nat} (objects : S.heap.breadth ≤ breadth) (t : Ty C)
    {v : Variant C} (hv : v.breadth ≤ breadth) :
    (of S t).EndsWithin (pollBound S.heap.delayBound breadth t) v := by
  have scalar (t : Ty C) (v : Variant C) : (scalar S t).EndsWithin 0 v :=
    fun _ _ _ polled => nomatch polled
  induction t generalizing v with
  | seq k t ih => exact container_endsWithin objects (fun _ => ih) hv
  | map k t ih => exact container_endsWithin objects (fun _ => ih) hv
  | _ => exact scalar _ v

/-- A conversion that is polled once more often than it can be pending is ready. -/
theorem exists_of_endsWithin {c : Conversion C} {n : Nat} {s : c.State}
    (h : c.kind.EndsWithin n s) {surroundings : List RefSet} (enough : n < surroundings.length) :
    ∃ o, (c.pollAll surroundings s).value = some o := by
  induction surroundings generalizing n s with
  | nil => exact absurd enough (Nat.not_lt_zero n)
  | cons R surroundings ih =>
    rw [pollAll, Logged.value_bind]
    cases polled : (c.poll R s).value with
    | ready o => exact ⟨o, rfl⟩
    | pending s' =>
      obtain ⟨m, rfl, rest⟩ := h.of_pending polled
      exact ih rest (Nat.lt_of_succ_lt_succ enough)

end Conversion

/-- **A kept conversion ends**: as many polls are enough as its limit says, with whatever is
done in between. -/
theorem Pending.exists_outcome (S : Setting C) (f : Pending C) {surroundings : List RefSet}
    (enough : f.pollLimit S ≤ surroundings.length) :
    ∃ o, ((Conversion.container S f.shape f.elem (Conversion.of S f.elem)).pollAll surroundings
      (.begun f.begun)).value = some o := by
  refine Conversion.exists_of_endsWithin
    (n := pollBound S.heap.delayBound (max S.heap.breadth f.begun.breadth) f.type) ?_ enough
  obtain ⟨shape, elem, settled | source⟩ := f
  · exact Stage.settled_endsWithin _ _
  · rw [Pending.type, pollBound_type]
    exact Stage.sourced_endsWithin (Nat.le_max_left _ _) (Nat.le_max_right _ _)
      fun v hv => Conversion.of_endsWithin (Nat.le_max_left _ _) elem hv

end DynValue
