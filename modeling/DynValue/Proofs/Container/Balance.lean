import DynValue.Proofs.Container.Lives
import DynValue.Proofs.Container.Termination
import DynValue.Session.Activity

/-!
# No read is left in flight

What a conversion reports is **balanced**, for every object: a read is over only if
it was begun before, and in the end all that were begun are over
(`Event.Balanced`). This is so of a conversion that is driven to its end, with
success or not, and of one that is given up at any time before
(`Pending.finish_balanced`, `Pending.abandon_balanced`). A conversion always has as many
reads to end as are in flight (`Conversion.inFlight`), a load that its steps conserve.

So an observer of the object sees as many reads in flight after the conversion as
before it (`Event.Balanced.inFlight_observe`).
-/

namespace DynValue

open Schedule

variable {C : CallerTypes}

/-! ## Balanced events -/

namespace Event

variable (r : Ref)

/-- Whether a read of an object begins. -/
def opens : Event C → Bool
  | began r' _ => decide (r' = r)
  | _ => false

/-- Whether a read of an object is over, answered or dropped. -/
def closes : Event C → Bool
  | ended r' _ => decide (r' = r)
  | _ => false

/-- **Balanced events** leave no read of an object in flight, and never end more reads
than they have begun. -/
structure Balanced (events : List (Event C)) : Prop where
  within : ∀ part, part <+: events → part.countP (closes r) ≤ part.countP (opens r)
  settled : events.countP (opens r) = events.countP (closes r)

end Event

/-- Diagnostics open nothing and close nothing. -/
theorem OnlyDiagnostics.countP {events : List (Event C)} (h : OnlyDiagnostics events) (r : Ref) :
    events.countP (Event.opens r) = 0 ∧ events.countP (Event.closes r) = 0 := by
  constructor
  all_goals
    refine List.countP_eq_zero.2 fun event mem => ?_
    obtain ⟨d, rfl⟩ := h event mem
    exact Bool.false_ne_true

theorem OnlyDiagnostics.closesAll {events : List (Event C)} (h : OnlyDiagnostics events)
    (r : Ref) : Closes (Event.opens r) (Event.closes r) 0 events :=
  ⟨(h.countP r).1, (h.countP r).2⟩

theorem OnlyDiagnostics.balanced {events : List (Event C)} (h : OnlyDiagnostics events)
    (r : Ref) : Event.Balanced r events where
  within part le := by
    have none : part.countP (Event.closes r) = 0 :=
      Nat.le_zero.1 ((h.countP r).2 ▸ le.sublist.countP_le)
    exact none ▸ Nat.zero_le _
  settled := (h.countP r).1.trans (h.countP r).2.symm

/-- The end of a read closes just that read. -/
theorem Event.closesAll_ended (r r' : Ref) (read : Read) :
    Closes (opens r) (closes r) (if r' = r then 1 else 0) [(.ended r' read : Event C)] := by
  refine ⟨rfl, ?_⟩
  rw [List.countP_singleton]
  exact if_congr decide_eq_true_iff rfl rfl

/-- Its beginning opens it. -/
theorem Event.countP_began (r r' : Ref) (read : Read) :
    [(.began r' read : Event C)].countP (opens r) = if r' = r then 1 else 0 := by
  rw [List.countP_singleton]
  exact if_congr decide_eq_true_iff rfl rfl

/-- What an observer of an object sees of one event. -/
theorem Activity.inFlight_observe (r : Ref) {event : Event C} {a : Activity}
    (within : [event].countP (Event.closes r) ≤ a.inFlight + [event].countP (Event.opens r)) :
    (observe r a event).inFlight + [event].countP (Event.closes r)
      = a.inFlight + [event].countP (Event.opens r) := by
  rw [List.countP_singleton, List.countP_singleton] at within ⊢
  cases event with
  | diagnostic d => rfl
  | began r' read =>
    by_cases same : r' = r
    · simp [observe, Event.opens, Event.closes, same, begin]
    · simp [observe, Event.opens, Event.closes, same]
  | ended r' read =>
    by_cases same : r' = r
    · simp only [Event.opens, Event.closes, same, decide_true, if_true] at within
      simp only [observe, Event.opens, Event.closes, same, decide_true, if_true, finish]
      exact Nat.sub_add_cancel within
    · simp [observe, Event.opens, Event.closes, same]

/-- **What an observer of an object sees** in flight after events that never end more
reads than there are. -/
theorem Activity.inFlight_foldl_observe (r : Ref) {events : List (Event C)} {a : Activity}
    (within : ∀ part, part <+: events →
      part.countP (Event.closes r) ≤ a.inFlight + part.countP (Event.opens r)) :
    (events.foldl (observe r) a).inFlight + events.countP (Event.closes r)
      = a.inFlight + events.countP (Event.opens r) := by
  induction events generalizing a with
  | nil => rfl
  | cons event events ih =>
    have split (p : Event C → Bool) (part : List (Event C)) :
        (event :: part).countP p = [event].countP p + part.countP p :=
      @List.countP_append _ p [event] part
    have first := inFlight_observe r (within [event] ⟨events, rfl⟩)
    have rest := ih (a := observe r a event) fun part le => by
      have later := within (event :: part) ((List.prefix_cons_inj event).2 le)
      rw [split (Event.closes r) part, split (Event.opens r) part] at later
      omega
    rw [List.foldl_cons, split (Event.closes r) events, split (Event.opens r) events]
    omega

/-- **After balanced events** as many reads are in flight as before. -/
theorem Event.Balanced.inFlight_observe {r : Ref} {events : List (Event C)}
    (h : Event.Balanced r events) (a : Activity) :
    (events.foldl (Activity.observe r) a).inFlight = a.inFlight := by
  have observed := Activity.inFlight_foldl_observe r (a := a) fun part le =>
    (h.within part le).trans (Nat.le_add_left _ _)
  rw [h.settled] at observed
  exact Nat.add_right_cancel observed

/-- **A life in which a load is conserved** that was nothing at first is balanced. -/
theorem Event.Balanced.of_life {τ φ α : Type} {k : Course φ τ α (Event C)} {r : Ref}
    {load : τ → Nat} {sound : τ → Prop} {t : τ} {reports : List (Event C)}
    {o : Option (Except φ α)} (h : k.Conserves (opens r) (closes r) load sound) (hs : sound t)
    (unloaded : load t = 0) (life : k.Life t reports o) : Balanced r reports := by
  obtain ⟨within, settled⟩ := h.life hs life
  rw [unloaded] at settled
  simp only [unloaded, Nat.zero_add] at within settled
  exact ⟨within, settled⟩

/-! ## Reads in flight -/

/-- **A count of the reads of an object in flight** in a conversion: none at first,
and what is reported says of each change. -/
structure Conversion.Counts {c : Conversion C} (k : c.Progress (Event C)) (r : Ref)
    (load : c.State → Nat) : Prop where
  conserves : k.Conserves (Event.opens r) (Event.closes r) load fun _ => True
  starts : ∀ {v reports s}, k.starts v reports s → load s = 0 ∧ OnlyDiagnostics reports

namespace Entry

/-- How many reads of an object an entry has in flight, with those of its
conversion. -/
def inFlight {σ : Type} (r : Ref) (load : σ → Nat) : Entry C σ → Nat
  | reading r' _ (some _) => if r' = r then 1 else 0
  | converting _ s => load s
  | _ => 0

variable {S : Setting C} {elem : Conversion C} {k : elem.Progress (Event C)} {r : Ref}
  {load : elem.State → Nat}

theorem counts (g : Conversion.Counts k r load) :
    (course S id k).Conserves (Event.opens r) (Event.closes r) (inFlight r load)
      fun _ => True where
  keeps _ _ := trivial
  moves _ step := by
    cases step with
    | begins r' read =>
      show 0 + [(.began r' read : Event C)].countP _ = (if r' = r then 1 else 0) + 0
      rw [Event.countP_began, Nat.zero_add, Nat.add_zero]
    | waits => rfl
    | @answers r' read reports s starts =>
      obtain ⟨none, only⟩ := g.starts starts
      have closed := (Event.closesAll_ended r r' read).append (only.closesAll r)
      show (if r' = r then 1 else 0) + _ = load s + _
      rw [none]
      exact closed.eq_zero_add
    | @takes v reports s starts =>
      obtain ⟨none, only⟩ := g.starts starts
      show 0 + _ = load s + _
      rw [none]
      exact (only.closesAll r).eq_zero_add
    | converts move => exact g.conserves.moves trivial move
  alone _ step := by
    cases step with
    | begins => exact .inr rfl
    | waits => exact .inl rfl
    | @answers r' read reports s starts =>
      have closed := (Event.closesAll_ended r r' read).append ((g.starts starts).2.closesAll r)
      exact .inl closed.begins_eq
    | takes starts => exact .inl ((g.starts starts).2.countP r).1
    | converts move => exact g.conserves.alone trivial move
  ends _ stops := by
    cases stops with
    | succeeds ends => exact g.conserves.ends trivial ends
    | fails ends => exact (g.conserves.ends trivial ends).append ((failure?_log _ _).closesAll r)
  drops {e} _ := by
    cases e with
    | reading r' read left =>
      cases left with
      | none => exact .nil
      | some left => exact Event.closesAll_ended r r' read
    | stored v => exact .nil
    | converting read s => exact g.conserves.drops trivial

end Entry

namespace Stage

/-- How many reads of an object a container conversion has in flight, with those of
its entries. -/
def inFlight {σ : Type} (r : Ref) (load : σ → Nat) : Stage C σ → Nat
  | begun _ => 0
  | sizing r' _ => if r' = r then 1 else 0
  | reading _ _ w => (w.tasks.map (Entry.inFlight r load)).sum
  | joining _ join => (join.tasks.map (Entry.inFlight r load)).sum

variable {S : Setting C} {shape : Shape} {t : Ty C} {elem : Conversion C}
  {k : elem.Progress (Event C)} {r : Ref} {load : elem.State → Nat}

/-- Entries in memory that are only started have no read in flight. -/
theorem inFlight_joining {keys : List String} {entries : List (Entry C elem.State)}
    (none : ∀ e ∈ entries, e.inFlight r load = 0) :
    inFlight r load (.joining keys (.ofList entries) : Stage C elem.State) = 0 := by
  rw [inFlight, Join.tasks_ofList]
  exact List.sum_eq_zero (List.forall_mem_map.2 none)

theorem startsAll_counts (g : Conversion.Counts k r load) {items : List (Variant C)}
    {reports : List (Event C)} {states : List elem.State}
    (starts : StartsAll k items reports states) :
    (∀ s ∈ states, load s = 0) ∧ OnlyDiagnostics reports := by
  induction starts with
  | nil => exact ⟨List.forall_mem_nil _, .nil⟩
  | cons first _ ih =>
    obtain ⟨none, only⟩ := g.starts first
    exact ⟨List.forall_mem_cons.2 ⟨none, ih.1⟩, only.append ih.2⟩

/-- **A container conversion counts its reads** if the conversions of elements do. -/
theorem counts (g : Conversion.Counts k r load) :
    Conversion.Counts (progress S shape t id k) r (inFlight r load) where
  starts := by
    rintro v reports stage ⟨alive, rfl, rfl⟩
    rw [List.map_id]
    exact ⟨rfl, Variant.begin_log _⟩
  conserves := by
    have window (contents : Contents) (r' : Ref) :
        (Window.course (Entry.course S id k) windowWidth (contents.entries r')).Conserves
          (Event.opens r) (Event.closes r) _ _ :=
      Window.course_conserves (Entry.counts g) fun n e next => by
        obtain ⟨read, -, rfl⟩ := Option.map_eq_some_iff.1 next
        exact ⟨trivial, rfl⟩
    have join := Join.course_conserves (Entry.counts (S := S) g)
    have each {tasks : List (Entry C elem.State)} : ∀ e ∈ tasks, True := fun _ _ => trivial
    exact {
      keeps := fun _ _ => trivial
      moves := by
        intro stage reports stage' _ step
        cases step with
        | asks r' =>
          show 0 + [(.began r' shape.sizeRead : Event C)].countP _ = (if r' = r then 1 else 0) + 0
          rw [Event.countP_began, Nat.zero_add, Nat.add_zero]
        | waits => rfl
        | answers r' =>
          exact ((Event.closesAll_ended r r' shape.sizeRead).append
            ((OnlyDiagnostics.one _).closesAll r)).eq_zero_add
        | reads step => exact (window _ _).moves each step
        | list ordered starts =>
          obtain ⟨none, only⟩ := startsAll_counts g starts
          rw [inFlight_joining (List.forall_mem_map.2 none)]
          exact (((OnlyDiagnostics.one _).append only).closesAll r).eq_zero_add
        | dictionary entries keyed =>
          rw [inFlight_joining (List.forall_mem_map.2 fun _ _ => rfl)]
          exact ((OnlyDiagnostics.one _).closesAll r).eq_zero_add
        | joins step => exact join.moves each step
      alone := by
        intro stage reports stage' _ step
        cases step with
        | asks => exact .inr rfl
        | waits => exact .inl rfl
        | answers => exact .inl rfl
        | reads step => exact (window _ _).alone each step
        | list ordered starts => exact .inl ((startsAll_counts g starts).2.countP r).1
        | dictionary => exact .inl rfl
        | joins step => exact join.alone each step
      ends := by
        intro stage reports o _ stops
        cases stops with
        | settled | refusesList | refusesDictionary => exact .nil
        | reading stops => exact (window _ _).ends each stops
        | joining stops => exact join.ends each stops
      drops := by
        intro stage _
        cases stage with
        | begun b => exact .nil
        | sizing r' left => exact Event.closesAll_ended r r' shape.sizeRead
        | reading r' contents w => exact (window contents r').drops each
        | joining keys waiting => exact join.drops each }

end Stage

namespace Conversion

/-- **How many reads of an object a conversion has in flight.** -/
def inFlight (S : Setting C) (r : Ref) : (t : Ty C) → (of S t).State → Nat
  | .seq _ t => Stage.inFlight r (inFlight S r t)
  | .map _ t => Stage.inFlight r (inFlight S r t)
  | _ => fun _ => 0

/-- **Conversions to every type** count their reads. -/
theorem steps_count {S : Setting C} (quiet : S.Quiet) (r : Ref) (t : Ty C) :
    Counts (steps S t) r (inFlight S r t) := by
  have scalar (t : Ty C) : Counts ((scalar S t).polls id) r fun _ => 0 := {
    conserves := scalar_conserves S t _ _
    starts := fun starts => ⟨rfl, scalar_starts quiet starts⟩ }
  induction t with
  | seq k t ih => exact Stage.counts ih
  | map k t ih => exact Stage.counts ih
  | _ => exact scalar _

end Conversion

/-! ## Giving up a conversion -/

namespace Conversion

/-- **A conversion that is given up** if it is not ready after some polls. -/
def abandon (c : Conversion C) :
    List RefSet → c.State → Reported C (Option (Except (CastError C) (Payload C)))
  | [], state => ⟨c.dropped state, none⟩
  | R :: surroundings, state => do
    match ← c.poll R state with
    | .ready outcome => pure (some outcome)
    | .pending state' => abandon c surroundings state'

/-- **It has lived** by then. -/
theorem life_of_abandon {c : Conversion C} {k : c.Progress (Event C)} (cov : k.Covers id)
    (surroundings : List RefSet) (s : c.State) :
    k.toCourse.Life s (c.abandon surroundings s).log (c.abandon surroundings s).value := by
  induction surroundings generalizing s with
  | nil =>
    have drops : k.drops s = c.dropped s := (List.map_id _).symm.trans (cov.polls.drops s)
    show k.toCourse.Life s (c.dropped s) none
    rw [← drops]
    exact .dropped (.refl s)
  | cons R surroundings ih =>
    have follows : k.Follows id s (c.poll R s) := cov.polls.polls R s
    rw [abandon]
    generalize c.poll R s = x at follows ⊢
    cases follows with
    | @pending s' reports path rests =>
      rw [List.map_id]
      exact (ih s').after path
    | ready path ends =>
      rw [List.map_id]
      show k.toCourse.Life s (_ ++ []) _
      rw [List.append_nil]
      exact .ended path ends

end Conversion

/-! ## The main statement -/

namespace Pending

variable {S : Setting C} (f : Pending C)

/-- A kept conversion that is given up if it is not ready after some polls. -/
def abandon (S : Setting C) (f : Pending C) (surroundings : List RefSet) :
    Reported C (Option (Except (CastError C) (Payload C))) :=
  (Conversion.container S f.shape f.elem (Conversion.of S f.elem)).abandon surroundings
    (.begun f.begun)

/-- **A kept conversion leaves no read in flight** by the end of its life. -/
theorem life_balanced (quiet : S.Quiet) {reports : List (Event C)}
    {o : Option (Except (CastError C) (Payload C))}
    (life : (f.steps S).Life (.begun f.begun) reports o) (r : Ref) : Event.Balanced r reports :=
  .of_life (Stage.counts (Conversion.steps_count quiet r f.elem)).conserves trivial rfl life

/-- So none is left if it is given up at any time. -/
theorem abandon_balanced (quiet : S.Quiet) (surroundings : List RefSet) (r : Ref) :
    Event.Balanced r (f.abandon S surroundings).log :=
  f.life_balanced quiet (Conversion.life_of_abandon (f.steps_covers S) surroundings _) r

/-- Nor if it is driven to its end, with success or not. -/
theorem finish_balanced (quiet : S.Quiet) (held : RefSet) (r : Ref) :
    Event.Balanced r (f.finish S held).log := by
  have enough : f.pollLimit S ≤ (List.replicate (f.pollLimit S) held).length :=
    List.length_replicate.ge
  obtain ⟨o, ended⟩ := f.exists_outcome S enough
  rw [finish_eq]
  exact f.life_balanced quiet (Conversion.life_of_pollAll (f.steps_covers S) ended) r

end Pending

end DynValue
