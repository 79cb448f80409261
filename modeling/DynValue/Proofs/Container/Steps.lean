import DynValue.Container.Drive
import DynValue.Proofs.Container.Settling
import DynValue.Proofs.Schedule.Steps

/-!
# Container conversions in small steps

A container conversion that is driven begins reads and ends them, starts the
conversion of what was answered, and delivers results. Here every one of
these is a step of its own: of an entry (`Entry.Step`) and of a whole
conversion (`Stage.Step`), given how the conversion of elements proceeds.

What a conversion reports itself is set apart from what the conversions of
its elements report: it goes through a function `own`, and reports in steps
can be of any type. Erasing this gives back what is reported, and every poll
of a container conversion follows the steps (`Conversion.container_covers`).
-/

namespace DynValue

open Schedule

variable {C : CallerTypes} {ε : Type}

/-- **How conversions to one type proceed**, from the start. -/
structure Conversion.Progress (elem : Conversion C) (ε : Type) extends
    Course (CastError C) elem.State (Payload C) ε where
  /-- Starting to convert a variant. -/
  starts : Variant C → List ε → elem.State → Prop

/-- **Conversions proceed in such steps**: they start so, and every poll
follows the steps. -/
structure Conversion.Progress.Covers {elem : Conversion C} (k : elem.Progress ε)
    (erase : ε → Event C) : Prop where
  polls : k.toCourse.Covers elem.kind erase
  starts : ∀ R v, ∃ reports, reports.map erase = (elem.start R v).log
    ∧ k.starts v reports (elem.start R v).value

/-- **The polls of a conversion** as its steps. -/
def Conversion.polls (c : Conversion C) (report : Event C → ε) : c.Progress ε where
  toCourse := c.kind.course report
  starts v reports s := ∃ R, s = (c.start R v).value ∧ reports = (c.start R v).log.map report

theorem Conversion.polls_covers (c : Conversion C) {report : Event C → ε} {erase : ε → Event C}
    (he : ∀ event, erase (report event) = event) : (c.polls report).Covers erase where
  polls := c.kind.course_covers he
  starts R v := by
    refine ⟨_, ?_, R, rfl, rfl⟩
    rw [List.map_map, show erase ∘ report = id from funext he, List.map_id]

/-! ## Entries -/

namespace Entry

section Steps

variable (S : Setting C) {elem : Conversion C} (own : Event C → ε) (k : elem.Progress ε)

/-- **One step of an entry.** -/
inductive Step : Entry C elem.State → List ε → Entry C elem.State → Prop
  | begins (r : Ref) (read : Read) :
      Step (.reading r read none) [own (.began r read)]
        (.reading r read (some ((S.heap.object r).delayOf read)))
  | waits (r : Ref) (read : Read) (left : Nat) :
      Step (.reading r read (some (left + 1))) [] (.reading r read (some left))
  | answers {r : Ref} {read : Read} {reports : List ε} {s : elem.State}
      (starts : k.starts (answer (S.heap.object r) read) reports s) :
      Step (.reading r read (some 0)) (own (.ended r read) :: reports)
        (.converting (some read) s)
  | takes {v : Variant C} {reports : List ε} {s : elem.State} (starts : k.starts v reports s) :
      Step (.stored v) reports (.converting none s)
  | converts {read : Option Read} {s s' : elem.State} {reports : List ε}
      (move : k.moves s reports s') :
      Step (.converting read s) reports (.converting read s')

/-- **The end of an entry** is the end of its conversion. -/
inductive Stops : Entry C elem.State → List ε → Except (CastError C) (Payload C) → Prop
  | succeeds {read : Option Read} {s : elem.State} {reports : List ε} {p : Payload C}
      (ends : k.ends s reports (.ok p)) : Stops (.converting read s) reports (.ok p)
  | fails {read : Option Read} {s : elem.State} {reports : List ε} {e : CastError C}
      (ends : k.ends s reports (.error e)) :
      Stops (.converting read s) (reports ++ (failure? read e).map own) (.error e)

/-- **How entries proceed.** An entry is left waiting only once it is begun. -/
def course : Course (CastError C) (Entry C elem.State) (Payload C) ε where
  moves := Step S own k
  ends := Stops own k
  rests
    | reading _ _ left => left ≠ none
    | stored _ => False
    | converting _ s => k.rests s
  drops
    | reading r read (some _) => [own (.ended r read)]
    | reading _ _ none => []
    | stored _ => []
    | converting _ s => k.drops s

end Steps

variable {S : Setting C} {elem : Conversion C} {own : Event C → ε} {k : elem.Progress ε}
  {erase : ε → Event C}

theorem pollConverting_follows (cov : k.Covers erase) (he : ∀ event, erase (own event) = event)
    (R : RefSet) (read : Option Read) (s : elem.State) :
    (course S own k).Follows erase (.converting read s) (pollConverting elem R read s) := by
  have follows : k.Follows erase s (elem.poll R s) := cov.polls.polls R s
  rw [pollConverting]
  generalize elem.poll R s = x at follows ⊢
  cases follows with
  | pending path rests =>
    show Course.Follows _ _ _ ⟨_ ++ [], _⟩
    rw [List.append_nil]
    exact .pending (path.map (Entry.converting read) .converts) rests
  | @ready s' reports last o path ends =>
    have moves : Trail (Step S own k) (.converting read s) reports (.converting read s') :=
      path.map (Entry.converting read) .converts
    cases o with
    | ok p =>
      show Course.Follows _ _ _ ⟨_ ++ [], _⟩
      rw [List.append_nil]
      exact .ready moves (.succeeds ends)
    | error e =>
      -- a failure of an entry that was read is reported behind that of its conversion
      show Course.Follows _ _ _ ⟨_ ++ (failure? read e ++ []), _⟩
      have same : failure? read e = ((failure? read e).map own).map erase := by
        rw [List.map_map, show erase ∘ own = id from funext he, List.map_id]
      rw [List.append_nil, same, ← List.map_append, List.append_assoc]
      exact .ready moves (.fails ends)

theorem started_follows (cov : k.Covers erase) (he : ∀ event, erase (own event) = event)
    (R : RefSet) (read : Option Read) (v : Variant C) :
    ∃ reports s, k.starts v reports s ∧ ∃ x, (course S own k).Follows erase (.converting read s) x
      ∧ (elem.start R v >>= fun s => pollConverting elem R read s)
        = ⟨reports.map erase ++ x.log, x.value⟩ := by
  obtain ⟨reports, same, starts⟩ := cov.starts R v
  refine ⟨reports, _, starts, _, pollConverting_follows cov he R read _, ?_⟩
  rw [same]
  rfl

theorem pollReading_follows (cov : k.Covers erase) (he : ∀ event, erase (own event) = event)
    (R : RefSet) (r : Ref) (read : Read) (left : Nat) :
    (course S own k).Follows erase (.reading r read (some left))
      (pollReading S elem R r read left) := by
  cases left with
  | succ left => exact .of_move (Step.waits r read left) (Option.some_ne_none left)
  | zero =>
    obtain ⟨reports, s, starts, x, follows, same⟩ :=
      started_follows (S := S) cov he R (some read) (answer (S.heap.object r) read)
    have whole := follows.head (.single (Step.answers starts))
    rw [List.map_cons, he] at whole
    rw [pollReading, same]
    exact whole

/-- **Every poll of an entry** follows the steps. -/
theorem course_covers (cov : k.Covers erase) (he : ∀ event, erase (own event) = event) :
    (course S own k).Covers (Entry.kind S elem) erase where
  polls R entry := by
    show Course.Follows _ _ _ (Entry.poll S elem R entry)
    cases entry with
    | reading r read left =>
      cases left with
      | some left => exact pollReading_follows cov he R r read left
      | none =>
        have whole := (pollReading_follows (S := S) cov he R r read _).head
          (.single (Step.begins r read))
        rw [List.map_cons, he] at whole
        exact whole
    | stored v =>
      obtain ⟨reports, s, starts, x, follows, same⟩ :=
        started_follows (S := S) cov he R none v
      rw [Entry.poll, same]
      exact follows.head (.single (Step.takes starts))
    | converting read s => exact pollConverting_follows cov he R read s
  drops entry := by
    cases entry with
    | reading r read left =>
      cases left with
      | none => rfl
      | some left => exact congrArg (fun event => [event]) (he _)
    | stored v => rfl
    | converting read s => exact cov.polls.drops s

end Entry

/-! ## Conversions -/

namespace Stage

section Steps

variable (S : Setting C) (shape : Shape) (t : Ty C) {elem : Conversion C} (own : Event C → ε)
  (k : elem.Progress ε)

/-- The start of all items of a list. -/
inductive StartsAll : List (Variant C) → List ε → List elem.State → Prop
  | nil : StartsAll [] [] []
  | cons {v : Variant C} {items : List (Variant C)} {reports more : List ε} {s : elem.State}
      {states : List elem.State} (starts : k.starts v reports s)
      (rest : StartsAll items more states) :
      StartsAll (v :: items) (reports ++ more) (s :: states)

/-- **One step of a container conversion.** -/
inductive Step : Stage C elem.State → List ε → Stage C elem.State → Prop
  | asks (r : Ref) :
      Step (.begun (.sourced (.object r))) [own (.began r shape.sizeRead)]
        (.sizing r ((S.heap.object r).delayOf shape.sizeRead))
  | waits (r : Ref) (left : Nat) : Step (.sizing r (left + 1)) [] (.sizing r left)
  | answers (r : Ref) :
      Step (.sizing r 0)
        [own (.ended r shape.sizeRead), own (.diagnostic
          ((Contents.ofObject shape (S.heap.object r)).diagnostic (shape.type t)))]
        (.reading r (Contents.ofObject shape (S.heap.object r)) .start)
  | reads {r : Ref} {contents : Contents}
      {w w' : Window (CastError C) (Entry C elem.State) (Payload C)} {reports : List ε}
      (step : Window.Step (Entry.course S own k) windowWidth (contents.entries r) w reports w') :
      Step (.reading r contents w) reports (.reading r contents w')
  | list {kind : SeqKind} {items : List (Variant C)} {reports : List ε}
      {states : List elem.State} (ordered : shape = .sequence kind)
      (starts : StartsAll k items reports states) :
      Step (.begun (.sourced (.list items)))
        (own (.diagnostic (.convertingList items.length (shape.type t))) :: reports)
        (.joining [] (.ofList (states.map (.converting none))))
  | dictionary {kind : MapKind} (entries : List (String × Variant C))
      (keyed : shape = .mapping kind) :
      Step (.begun (.sourced (.dictionary entries)))
        [own (.diagnostic (.convertingDictionary entries.length (shape.type t)))]
        (.joining (entries.map Prod.fst) (.ofList (entries.map fun e => .stored e.2)))
  | joins {keys : List String}
      {join join' : Join (CastError C) (Entry C elem.State) (Payload C)} {reports : List ε}
      (step : Join.Step (Entry.course S own k) join reports join') :
      Step (.joining keys join) reports (.joining keys join')

/-- **The end of a container conversion.** -/
inductive Stops : Stage C elem.State → List ε → Except (CastError C) (Payload C) → Prop
  | settled (o : Except (CastError C) (Payload C)) : Stops (.begun (.settled o)) [] o
  | refusesList {kind : MapKind} (items : List (Variant C)) (keyed : shape = .mapping kind) :
      Stops (.begun (.sourced (.list items))) []
        (.error (CastError.because ⟨.variants, shape.type t, none⟩ .listAsMapping))
  | refusesDictionary {kind : SeqKind} (entries : List (String × Variant C))
      (ordered : shape = .sequence kind) :
      Stops (.begun (.sourced (.dictionary entries))) []
        (.error (CastError.because ⟨.dictionary, shape.type t, none⟩ .dictionaryAsSequence))
  | reading {r : Ref} {contents : Contents}
      {w : Window (CastError C) (Entry C elem.State) (Payload C)} {reports : List ε}
      {o : Except (CastError C) (Array (Payload C))}
      (stops : Window.Stops (Entry.course S own k) windowWidth (contents.entries r) w reports o) :
      Stops (.reading r contents w) reports
        (o.map fun values => shape.assemble t contents.keys values.toList)
  | joining {keys : List String}
      {join : Join (CastError C) (Entry C elem.State) (Payload C)} {reports : List ε}
      {o : Except (CastError C) (List (Payload C))}
      (stops : Join.Stops (Entry.course S own k) join reports o) :
      Stops (.joining keys join) reports (o.map (shape.assemble t keys))

/-- **How container conversions proceed.** -/
def progress : (Conversion.container S shape t elem).Progress ε where
  moves := Step S shape t own k
  ends := Stops S shape t own k
  rests _ := True
  drops
    | begun _ => []
    | sizing r _ => [own (.ended r shape.sizeRead)]
    | reading _ _ w => (Window.course (Entry.course S own k) windowWidth fun _ => none).drops w
    | joining _ join => (Join.course (Entry.course S own k)).drops join
  starts v reports stage := ∃ alive : RefSet,
    reports = (v.begin alive (shape.type t)).log.map own
      ∧ stage = .begun (v.begin alive (shape.type t)).value

end Steps

variable {S : Setting C} {shape : Shape} {t : Ty C} {elem : Conversion C} {own : Event C → ε}
  {k : elem.Progress ε} {erase : ε → Event C}

theorem pollReading_follows (cov : k.Covers erase) (he : ∀ event, erase (own event) = event)
    (R : RefSet) (r : Ref) (contents : Contents)
    (w : Window (CastError C) (Entry C elem.State) (Payload C)) :
    (progress S shape t own k).Follows erase (.reading r contents w)
      (pollReading S shape t elem R r contents w) := by
  have follows : (Window.course (Entry.course S own k) windowWidth (contents.entries r)).Follows
      erase w (w.run (Entry.kind S elem) windowWidth (contents.entries r)
        (RefSet.union R (RefSet.single r)) (contents.count - w.delivered.size + 1)) :=
    w.run_follows (Entry.course_covers cov he) _
  show Course.Follows _ _ _ (Bind.bind (w.run (Entry.kind S elem) windowWidth
    (contents.entries r) (RefSet.union R (RefSet.single r))
    (contents.count - w.delivered.size + 1)) _)
  generalize w.run (Entry.kind S elem) windowWidth _ _ _ = x at follows ⊢
  cases follows with
  | pending path rests =>
    show Course.Follows _ _ _ ⟨_ ++ [], _⟩
    rw [List.append_nil]
    exact .pending (path.map (Stage.reading r contents) Step.reads) trivial
  | @ready w' reports last o path ends =>
    have moves : Trail (Step S shape t own k) (.reading r contents w) reports
        (.reading r contents w') := path.map (Stage.reading r contents) Step.reads
    cases o with
    | ok values =>
      show Course.Follows _ _ _ ⟨_ ++ [], _⟩
      rw [List.append_nil]
      exact .ready moves (Stops.reading ends)
    | error e =>
      show Course.Follows _ _ _ ⟨_ ++ [], _⟩
      rw [List.append_nil]
      exact .ready moves (Stops.reading ends)

theorem pollJoining_follows (cov : k.Covers erase) (he : ∀ event, erase (own event) = event)
    (R : RefSet) (keys : List String)
    (join : Join (CastError C) (Entry C elem.State) (Payload C)) :
    (progress S shape t own k).Follows erase (.joining keys join)
      (pollJoining S shape t elem R keys join) := by
  have follows : (Join.course (Entry.course S own k)).Follows erase join
      (join.poll (Entry.kind S elem) R) := join.poll_follows (Entry.course_covers cov he)
  rw [pollJoining]
  generalize join.poll (Entry.kind S elem) R = x at follows ⊢
  cases follows with
  | pending path rests =>
    show Course.Follows _ _ _ ⟨_ ++ [], _⟩
    rw [List.append_nil]
    exact .pending (path.map (Stage.joining keys) Step.joins) trivial
  | @ready join' reports last o path ends =>
    have moves : Trail (Step S shape t own k) (.joining keys join) reports
        (.joining keys join') := path.map (Stage.joining keys) Step.joins
    cases o with
    | ok values =>
      show Course.Follows _ _ _ ⟨_ ++ [], _⟩
      rw [List.append_nil]
      exact .ready moves (Stops.joining ends)
    | error e =>
      show Course.Follows _ _ _ ⟨_ ++ [], _⟩
      rw [List.append_nil]
      exact .ready moves (Stops.joining ends)

theorem pollSizing_follows (cov : k.Covers erase) (he : ∀ event, erase (own event) = event)
    (R : RefSet) (r : Ref) (left : Nat) :
    (progress S shape t own k).Follows erase (.sizing r left)
      (pollSizing S shape t elem R r left) := by
  cases left with
  | succ left => exact .of_move (Step.waits r left) trivial
  | zero =>
    have reading : (progress S shape t own k).Follows erase _ (pollReading S shape t elem R r
        (Contents.ofObject shape (S.heap.object r)) .start) :=
      pollReading_follows cov he R r _ .start
    have whole := reading.head (.single (Step.answers r))
    rw [List.map_cons, List.map_cons, he, he] at whole
    exact whole

theorem startAll_starts (cov : k.Covers erase) (R : RefSet) (started : List elem.State)
    (items : List (Variant C)) :
    ∃ reports states, reports.map erase = (startAll elem R started items).log
      ∧ (startAll elem R started items).value = started.reverse ++ states
      ∧ StartsAll k items reports states := by
  induction items generalizing started with
  | nil => exact ⟨[], [], rfl, (List.append_nil _).symm, .nil⟩
  | cons v items ih =>
    obtain ⟨reports, same, starts⟩ := cov.starts (RefSet.union R (RefSet.union
      (RefSet.unionOf elem.holds started) (RefSet.unionOf Variant.holds items))) v
    obtain ⟨more, states, log, value, rest⟩ := ih ((elem.start _ v).value :: started)
    refine ⟨reports ++ more, _ :: states, ?_, ?_, .cons starts rest⟩
    · rw [List.map_append, same, log]
      rfl
    · rw [startAll, Logged.value_bind, value, List.reverse_cons, List.append_assoc]
      rfl

theorem pollSourced_follows (cov : k.Covers erase) (he : ∀ event, erase (own event) = event)
    (R : RefSet) (source : Source C) :
    (progress S shape t own k).Follows erase (.begun (.sourced source))
      (pollSourced S shape t elem R source) := by
  cases source with
  | object r =>
    have sizing : (progress S shape t own k).Follows erase _ (pollSizing S shape t elem R r
        ((S.heap.object r).delayOf shape.sizeRead)) := pollSizing_follows cov he R r _
    have whole := sizing.head (.single (Step.asks r))
    rw [List.map_cons, he] at whole
    exact whole
  | list items =>
    cases shape with
    | mapping kind => exact .of_ends (Stops.refusesList items rfl)
    | sequence kind =>
      obtain ⟨reports, states, log, value, starts⟩ := startAll_starts cov R [] items
      have joining : (progress S (.sequence kind) t own k).Follows erase _ (pollJoining S
          (.sequence kind) t elem R [] (.ofList (states.map (.converting none)))) :=
        pollJoining_follows cov he R [] _
      have whole := joining.head (.single (Step.list rfl starts))
      -- all items are started in one step, before the first of them is polled
      rw [List.reverse_nil, List.nil_append] at value
      rw [List.map_cons, he, log, ← value, List.cons_append] at whole
      exact whole
  | dictionary entries =>
    cases shape with
    | sequence kind => exact .of_ends (Stops.refusesDictionary entries rfl)
    | mapping kind =>
      have joining : (progress S (.mapping kind) t own k).Follows erase _ (pollJoining S
          (.mapping kind) t elem R (entries.map Prod.fst)
          (.ofList (entries.map fun e => .stored e.2))) :=
        pollJoining_follows cov he R (entries.map Prod.fst) _
      have whole := joining.head (.single (Step.dictionary entries rfl))
      rw [List.map_cons, he] at whole
      exact whole

end Stage

/-- **Every poll of a container conversion** follows the steps, if those of
the conversions of its elements do. -/
theorem Conversion.container_covers {S : Setting C} {shape : Shape} {t : Ty C}
    {elem : Conversion C} {own : Event C → ε} {k : elem.Progress ε} {erase : ε → Event C}
    (cov : k.Covers erase) (he : ∀ event, erase (own event) = event) :
    (Stage.progress S shape t own k).Covers erase where
  polls := {
    polls := fun R stage => by
      show Course.Follows _ _ _ (Stage.poll S shape t elem R stage)
      cases stage with
      | begun b =>
        cases b with
        | settled o => exact .of_ends (Stage.Stops.settled o)
        | sourced source => exact Stage.pollSourced_follows cov he R source
      | sizing r left => exact Stage.pollSizing_follows cov he R r left
      | reading r contents w => exact Stage.pollReading_follows cov he R r contents w
      | joining keys join => exact Stage.pollJoining_follows cov he R keys join
    drops := fun stage => by
      cases stage with
      | begun b => rfl
      | sizing r left => exact congrArg (fun event => [event]) (he _)
      | reading r contents w => exact (Entry.course_covers (S := S) cov he).dropAll _
      | joining keys join =>
        cases join with
        | rounds slots => exact (Entry.course_covers (S := S) cov he).dropSlots _
        | run w => exact (Entry.course_covers (S := S) cov he).dropAll _ }
  starts R v := by
    refine ⟨_, ?_, S.heap.alive R, rfl, rfl⟩
    rw [List.map_map, show erase ∘ own = id from funext he, List.map_id]
    exact (List.append_nil _).symm

/-! ## Driving -/

namespace Conversion

/-- **A conversion polled again and again**, until it is ready or there is no
more poll. What is held elsewhere may be different each time. -/
def pollAll (c : Conversion C) :
    List RefSet → c.State → Reported C (Option (Except (CastError C) (Payload C)))
  | [], _ => pure none
  | R :: surroundings, state => do
    match ← c.poll R state with
    | .ready outcome => pure (some outcome)
    | .pending state' => pollAll c surroundings state'

theorem drive_eq (c : Conversion C) (R : RefSet) (n : Nat) (s : c.State) :
    c.drive R n s = c.pollAll (List.replicate n R) s := by
  induction n generalizing s with
  | zero => rfl
  | succ n ih =>
    rw [drive, List.replicate_succ, pollAll]
    refine congrArg (Bind.bind (c.poll R s)) (funext fun x => ?_)
    cases x with
    | ready outcome => rfl
    | pending s' => exact ih s'

variable {c : Conversion C} {k : c.Progress ε} {erase : ε → Event C}

/-- **How a conversion is driven**: by trails of steps, to its end or not. -/
inductive Driven (k : c.Progress ε) (erase : ε → Event C) (s : c.State) :
    Reported C (Option (Except (CastError C) (Payload C))) → Prop
  | tires {s' : c.State} {reports : List ε} (path : Trail k.moves s reports s') :
      Driven k erase s ⟨reports.map erase, none⟩
  | ends {s' : c.State} {reports last : List ε} {o : Except (CastError C) (Payload C)}
      (path : Trail k.moves s reports s') (ends : k.ends s' last o) :
      Driven k erase s ⟨(reports ++ last).map erase, some o⟩

/-- **All polls of a conversion** follow its steps. -/
theorem pollAll_driven (cov : k.Covers erase) (surroundings : List RefSet) (s : c.State) :
    Driven k erase s (c.pollAll surroundings s) := by
  induction surroundings generalizing s with
  | nil => exact .tires (.refl s)
  | cons R surroundings ih =>
    have follows : k.Follows erase s (c.poll R s) := cov.polls.polls R s
    rw [pollAll]
    generalize c.poll R s = x at follows ⊢
    cases follows with
    | @pending s' reports path rests =>
      have rest := ih s'
      show Driven k erase s ⟨_ ++ (c.pollAll surroundings s').log,
        (c.pollAll surroundings s').value⟩
      generalize c.pollAll surroundings s' = x at rest ⊢
      cases rest with
      | tires more =>
        rw [← List.map_append]
        exact .tires (path.trans more)
      | ends more ends =>
        rw [← List.map_append, ← List.append_assoc]
        exact .ends (path.trans more) ends
    | ready path ends =>
      show Driven k erase s ⟨_ ++ [], _⟩
      rw [List.append_nil]
      exact .ends path ends

end Conversion

end DynValue
