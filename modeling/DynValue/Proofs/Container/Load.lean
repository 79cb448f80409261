import DynValue.Proofs.Container.Steps
import DynValue.Proofs.Schedule.Conservation
import Mathlib.Algebra.GroupWithZero.Nat
import Mathlib.Algebra.Order.BigOperators.Group.List

/-!
# The reads of an object in flight

Within a conversion there can be many **runs** under way that read the
entries of one object: wherever the object is come upon, a run of its own is
begun. `Conversion.runs` gives, for each run over an object, how many of its
reads are begun and not over.

Each run keeps to its window, so it has never more than sixteen reads in
flight (`Conversion.Gauged.le`). And together the runs account for all reads
of entries that are in flight (`Conversion.gauged`): this is a load, which
the small steps conserve.
-/

namespace DynValue

open Schedule

variable {C : CallerTypes}

/-! ## Counting reads -/

/-- Whether an entry is read, and not the size. -/
def Read.ofEntry : Read → Bool
  | element _ | property _ => true
  | length | keys => false

namespace Event

variable (r : Ref)

/-- Whether a read of an entry of an object begins. -/
def begins : Event C → Bool
  | began r' read => decide (r' = r) && read.ofEntry
  | _ => false

/-- Whether such a read is over, answered or dropped. -/
def finishes : Event C → Bool
  | ended r' read => decide (r' = r) && read.ofEntry
  | _ => false

/-- **The reads of entries of an object in flight** after some events: begun,
and neither answered nor dropped. -/
def inFlight (events : List (Event C)) : Nat :=
  events.countP (begins r) - events.countP (finishes r)

end Event

/-- Only diagnostics are reported. -/
def OnlyDiagnostics (events : List (Event C)) : Prop :=
  ∀ event ∈ events, ∃ d, event = .diagnostic d

namespace OnlyDiagnostics

variable {events more : List (Event C)}

theorem nil : OnlyDiagnostics ([] : List (Event C)) := fun _ h => (List.not_mem_nil h).elim

theorem one (d : Diagnostic C) : OnlyDiagnostics [.diagnostic d] :=
  fun _ h => ⟨d, List.mem_singleton.1 h⟩

theorem append (h : OnlyDiagnostics events) (h' : OnlyDiagnostics more) :
    OnlyDiagnostics (events ++ more) :=
  fun event mem => (List.mem_append.1 mem).elim (h event) (h' event)

/-- Diagnostics close nothing, and begin nothing. -/
theorem closes (h : OnlyDiagnostics events) (r : Ref) :
    Closes (Event.begins r) (Event.finishes r) 0 events := by
  refine ⟨List.countP_eq_zero.2 ?_, List.countP_eq_zero.2 ?_⟩
  · intro event mem
    obtain ⟨d, rfl⟩ := h event mem
    exact Bool.false_ne_true
  · intro event mem
    obtain ⟨d, rfl⟩ := h event mem
    exact Bool.false_ne_true

end OnlyDiagnostics

/-! ## Conversions of scalars -/

/-- **The caller's rules read no objects**: all they report is diagnostics. -/
def Setting.Quiet (S : Setting C) : Prop :=
  ∀ tag alive v, OnlyDiagnostics (S.converters.rule tag alive v).log

namespace Variant

variable {S : Setting C} {alive : RefSet} {v : Variant C}

theorem attempt_log {t : Ty C} {rule : Reported C (Except (CastError C) (Payload C))}
    (h : OnlyDiagnostics rule.log) : OnlyDiagnostics (v.attempt t rule).log := by
  unfold attempt
  cases v.exactly? t with
  | some p => exact .nil
  | none =>
    rw [Logged.log_bind]
    cases rule.value with
    | ok p => exact h.append .nil
    | error e => exact h.append (.one _)

theorem convertFrom_log (quiet : S.Quiet) (t : Ty C) :
    OnlyDiagnostics (convertFrom S.converters alive t v).log := by
  induction t with
  | option t ih =>
    rw [convertFrom]
    split
    · exact .nil
    · rw [Logged.log_bind]
      refine (attempt_log ih).append ?_
      split <;> exact .nil
  | caller tag =>
    rw [convertFrom, Logged.log_bind]
    refine (quiet tag alive v).append ?_
    split <;> exact .nil
  | wide =>
    rw [convertFrom, Logged.log_bind]
    refine (attempt_log .nil).append ?_
    split <;> exact .nil
  | shared t =>
    cases t with
    | externalObject => exact .nil
    | _ => exact .nil
  | _ => exact .nil

/-- **A conversion to a scalar** reports diagnostics only. -/
theorem convert_log (quiet : S.Quiet) (t : Ty C) :
    OnlyDiagnostics (v.convert S.converters alive t).log :=
  attempt_log (convertFrom_log quiet t)

/-- So does asking for a container. -/
theorem begin_log (t : Ty C) : OnlyDiagnostics (v.begin alive t).log := by
  unfold begin
  split
  · exact .nil
  · split
    · exact .nil
    · exact .one _

end Variant

/-! ## Entries -/

namespace Entry

variable {σ : Type}

/-- How many reads of an object an entry has in flight itself. -/
def asked (r : Ref) : Entry C σ → Nat
  | reading r' read (some _) => if r' = r && read.ofEntry then 1 else 0
  | _ => 0

/-- The runs over an object in the conversion of an entry. -/
def runs (inner : σ → List Nat) : Entry C σ → List Nat
  | converting _ s => inner s
  | _ => []

/-- **The load of an entry**: its own read, and those of all runs. -/
def load (r : Ref) (inner : σ → List Nat) (e : Entry C σ) : Nat :=
  e.asked r + (e.runs inner).sum

/-- **Sound entries** are read from one object, or none is read. -/
def Sound (source : Option Ref) (inner : σ → Prop) : Entry C σ → Prop
  | reading r read _ => source = some r ∧ read.ofEntry = true
  | stored _ => True
  | converting _ s => inner s

end Entry

/-- **A gauge of conversions**: the runs over an object account for all of its
reads in flight, and none has more than the width. -/
structure Conversion.Gauged {c : Conversion C} (k : c.Progress (Event C)) (r : Ref)
    (runs : c.State → List Nat) (sound : c.State → Prop) : Prop where
  conserves : k.Conserves (Event.begins r) (Event.finishes r) (fun s => (runs s).sum) sound
  starts : ∀ {v reports s}, k.starts v reports s →
    sound s ∧ runs s = [] ∧ OnlyDiagnostics reports
  le : ∀ {s}, sound s → ∀ n ∈ runs s, n ≤ windowWidth

namespace Entry

variable {S : Setting C} {elem : Conversion C} {k : elem.Progress (Event C)} {r : Ref}
  {inner : elem.State → List Nat} {sound : elem.State → Prop} {source : Option Ref}

@[simp] theorem load_fresh (r' : Ref) (read : Read) :
    load r inner (.reading r' read none : Entry C elem.State) = 0 := rfl

@[simp] theorem load_asked (r' : Ref) (read : Read) (left : Nat) :
    load r inner (.reading r' read (some left) : Entry C elem.State)
      = if r' = r && read.ofEntry then 1 else 0 := rfl

@[simp] theorem load_converting (read : Option Read) (s : elem.State) :
    load r inner (.converting read s : Entry C elem.State) = (inner s).sum :=
  Nat.zero_add _

/-- The end of a read closes the load of the read. -/
theorem closes_ended (r' : Ref) (read : Read) (left : Nat) :
    Closes (Event.begins r) (Event.finishes r)
      (load r inner (.reading r' read (some left) : Entry C elem.State))
      [(Event.ended r' read : Event C)] := by
  refine ⟨rfl, ?_⟩
  rw [load_asked, List.countP_singleton]
  rfl

/-- So does an answer, as the conversion of what is answered only starts. -/
theorem closes_answers (g : Conversion.Gauged k r inner sound) {r' : Ref} {read : Read}
    {left : Nat} {v : Variant C} {reports : List (Event C)} {s : elem.State}
    (starts : k.starts v reports s) :
    Closes (Event.begins r) (Event.finishes r)
      (load r inner (.reading r' read (some left) : Entry C elem.State))
      (.ended r' read :: reports) := by
  have ended : Closes (Event.begins r) (Event.finishes r)
      (load r inner (.reading r' read (some left))) [(Event.ended r' read : Event C)] :=
    closes_ended r' read left
  exact ended.append ((g.starts starts).2.2.closes r)

theorem failure?_log (read : Option Read) (e : CastError C) :
    OnlyDiagnostics ((failure? read e).map id) := by
  rw [List.map_id]
  unfold failure?
  split
  · exact .one _
  · exact .one _
  · exact .nil

/-- **Entries conserve the load** if the conversions of elements do. -/
theorem course_conserves (g : Conversion.Gauged k r inner sound) :
    (course S id k).Conserves (Event.begins r) (Event.finishes r) (load r inner)
      (Sound source sound) where
  keeps {e _ _} hs step := by
    cases step with
    | begins => exact hs
    | waits => exact hs
    | answers starts => exact (g.starts starts).1
    | takes starts => exact (g.starts starts).1
    | converts move => exact g.conserves.keeps hs move
  moves hs step := by
    cases step with
    | begins r' read =>
      rw [load_fresh, load_asked, List.countP_singleton, List.countP_singleton]
      exact Nat.zero_add _
    | waits => rfl
    | answers starts =>
      rw [load_converting, (g.starts starts).2.1]
      exact (closes_answers g starts).eq_zero_add
    | takes starts =>
      rw [load_converting, (g.starts starts).2.1]
      exact ((g.starts starts).2.2.closes r).eq_zero_add
    | converts move =>
      rw [load_converting, load_converting]
      exact g.conserves.moves hs move
  alone hs step := by
    cases step with
    | begins => exact .inr rfl
    | waits => exact .inl rfl
    | @answers r' read reports s starts =>
      have closes : Closes _ _ (load r inner (.reading r' read (some 0))) _ :=
        closes_answers g starts
      exact .inl closes.begins_eq
    | takes starts => exact .inl ((g.starts starts).2.2.closes r).begins_eq
    | converts move => exact g.conserves.alone hs move
  ends hs stops := by
    cases stops with
    | succeeds ends =>
      rw [load_converting]
      exact g.conserves.ends hs ends
    | fails ends =>
      rw [load_converting]
      exact (g.conserves.ends hs ends).append ((failure?_log _ _).closes r)
  drops {e} hs := by
    cases e with
    | reading r' read left =>
      cases left with
      | none => exact .nil
      | some left => exact closes_ended r' read left
    | stored v => exact .nil
    | converting read s =>
      rw [load_converting]
      exact g.conserves.drops hs

theorem asked_le (r : Ref) (e : Entry C elem.State) : e.asked r ≤ 1 := by
  unfold asked
  split
  · split
    · exact Nat.le_refl 1
    · exact Nat.zero_le 1
  · exact Nat.zero_le 1

/-- An entry of another object has no read of this one in flight. -/
theorem asked_eq_zero {e : Entry C elem.State} (hs : e.Sound source sound)
    (other : source ≠ some r) : e.asked r = 0 := by
  cases e with
  | reading r' read left =>
    cases left with
    | none => rfl
    | some left =>
      refine if_neg (fun same => other ?_)
      rw [Bool.and_eq_true, decide_eq_true_iff] at same
      rw [hs.1, same.1]
  | stored v => rfl
  | converting read s => rfl

theorem sum_load (r : Ref) (inner : elem.State → List Nat) (entries : List (Entry C elem.State)) :
    (entries.map (load r inner)).sum
      = (entries.map (asked r)).sum + (entries.flatMap (runs inner)).sum := by
  induction entries with
  | nil => rfl
  | cons e entries ih =>
    rw [List.map_cons, List.map_cons, List.flatMap_cons, List.sum_cons, List.sum_cons,
      List.sum_append, ih, load]
    omega

end Entry

/-! ## Conversions of containers -/

namespace Stage

variable {σ : Type}

/-- **The runs over an object** in a conversion: its own, while it reads the
entries, and those of the conversions of the entries. -/
def runs (r : Ref) (inner : σ → List Nat) : Stage C σ → List Nat
  | reading r' _ w =>
    (if r' = r then [(w.tasks.map (Entry.asked r)).sum] else [])
      ++ w.tasks.flatMap (Entry.runs inner)
  | joining _ join => join.tasks.flatMap (Entry.runs inner)
  | _ => []

/-- **Sound conversions** keep to the window, and read the entries of their
own object only. -/
def Sound (inner : σ → Prop) : Stage C σ → Prop
  | reading r _ w => w.queue.size ≤ windowWidth ∧ ∀ e ∈ w.tasks, e.Sound (some r) inner
  | joining _ join => ∀ e ∈ join.tasks, e.Sound none inner
  | _ => True

variable {S : Setting C} {shape : Shape} {t : Ty C} {elem : Conversion C}
  {k : elem.Progress (Event C)} {r r' : Ref} {inner : elem.State → List Nat}
  {sound : elem.State → Prop} {contents : Contents} {keys : List String}
  {w : Window (CastError C) (Entry C elem.State) (Payload C)}
  {join : Join (CastError C) (Entry C elem.State) (Payload C)}

theorem sum_asked_eq_zero {source : Option Ref} {entries : List (Entry C elem.State)}
    (hs : ∀ e ∈ entries, e.Sound source sound) (other : source ≠ some r) :
    (entries.map (Entry.asked r)).sum = 0 := by
  induction entries with
  | nil => rfl
  | cons e entries ih =>
    rw [List.map_cons, List.sum_cons, Entry.asked_eq_zero (hs e List.mem_cons_self) other,
      ih fun e mem => hs e (List.mem_cons_of_mem _ mem)]

theorem sum_runs_reading (hs : ∀ e ∈ w.tasks, e.Sound (some r') sound) :
    (runs r inner (.reading r' contents w)).sum = (w.tasks.map (Entry.load r inner)).sum := by
  rw [Entry.sum_load, runs, List.sum_append]
  -- a run over another object has no read of this one in flight itself
  by_cases same : r' = r
  · rw [if_pos same, List.sum_singleton]
  · rw [if_neg same, sum_asked_eq_zero hs (fun h => same (Option.some.inj h))]
    rfl

theorem sum_runs_joining (hs : ∀ e ∈ join.tasks, e.Sound none sound) :
    (runs r inner (.joining keys join)).sum = (join.tasks.map (Entry.load r inner)).sum := by
  rw [Entry.sum_load, runs, sum_asked_eq_zero hs (fun h => nomatch h), Nat.zero_add]

theorem inner_runs_le (g : Conversion.Gauged k r inner sound) {source : Option Ref}
    {entries : List (Entry C elem.State)} (hs : ∀ e ∈ entries, e.Sound source sound) :
    ∀ n ∈ entries.flatMap (Entry.runs inner), n ≤ windowWidth := by
  intro n mem
  obtain ⟨e, he, hn⟩ := List.mem_flatMap.1 mem
  have sound := hs e he
  cases e with
  | reading r' read left => exact (List.not_mem_nil hn).elim
  | stored v => exact (List.not_mem_nil hn).elim
  | converting read s => exact g.le sound n hn

/-- **No run has more reads in flight than the width.** -/
theorem runs_le (g : Conversion.Gauged k r inner sound) {stage : Stage C elem.State}
    (hs : stage.Sound sound) : ∀ n ∈ runs r inner stage, n ≤ windowWidth := by
  intro n mem
  cases stage with
  | begun b => exact (List.not_mem_nil mem).elim
  | sizing r' left => exact (List.not_mem_nil mem).elim
  | joining keys join => exact inner_runs_le g hs n mem
  | reading r' contents w =>
    -- its own reads are among the tasks of its window, the others are runs of entries
    rcases List.mem_append.1 mem with own | mem
    · have ofOwn : n = (w.tasks.map (Entry.asked r)).sum := by
        split at own
        · exact List.mem_singleton.1 own
        · exact (List.not_mem_nil own).elim
      have tasks_le : w.tasks.length ≤ w.queue.size := by
        rw [Window.tasks, List.length_map]
        exact Nat.le_add_right _ _
      have each : (w.tasks.map (Entry.asked r)).sum
          ≤ (w.tasks.map (Entry.asked r)).length * 1 :=
        List.sum_le_card_nsmul _ 1 (List.forall_mem_map.2 fun e _ => Entry.asked_le r e)
      rw [List.length_map, Nat.mul_one] at each
      exact ofOwn.le.trans (each.trans (tasks_le.trans hs.1))
    · exact inner_runs_le g hs.2 n mem

theorem startsAll_sound (g : Conversion.Gauged k r inner sound) {items : List (Variant C)}
    {reports : List (Event C)} {states : List elem.State}
    (starts : StartsAll k items reports states) :
    (∀ s ∈ states, sound s ∧ inner s = []) ∧ OnlyDiagnostics reports := by
  induction starts with
  | nil => exact ⟨List.forall_mem_nil _, .nil⟩
  | cons first _ ih =>
    obtain ⟨sound, none, only⟩ := g.starts first
    exact ⟨List.forall_mem_cons.2 ⟨⟨sound, none⟩, ih.1⟩, only.append ih.2⟩

theorem entries_fresh {n : Nat} {e : Entry C elem.State} (h : contents.entries r' n = some e) :
    e.Sound (some r') sound ∧ e.load r inner = 0 := by
  obtain ⟨read, found, rfl⟩ := Option.map_eq_some_iff.1 h
  refine ⟨⟨rfl, ?_⟩, rfl⟩
  cases contents with
  | elements count =>
    obtain ⟨-, same⟩ := Option.ite_none_right_eq_some.1 found
    rw [← Option.some.inj same]
    rfl
  | properties keys =>
    obtain ⟨key, -, rfl⟩ := Option.map_eq_some_iff.1 found
    rfl

/-- **A run conserves the load of its entries.** -/
theorem window_conserves (g : Conversion.Gauged k r inner sound) (r' : Ref)
    (contents : Contents) :
    (Window.course (Entry.course S id k) windowWidth (contents.entries r')).Conserves
      (Event.begins r) (Event.finishes r) (fun w => (w.tasks.map (Entry.load r inner)).sum)
      (fun w => ∀ e ∈ w.tasks, e.Sound (some r') sound) :=
  Window.course_conserves (Entry.course_conserves g) fun _ _ => entries_fresh

/-- So do entries in memory. -/
theorem join_conserves (g : Conversion.Gauged k r inner sound) :
    (Join.course (Entry.course S id k)).Conserves (Event.begins r) (Event.finishes r)
      (fun join => (join.tasks.map (Entry.load r inner)).sum)
      (fun join => ∀ e ∈ join.tasks, e.Sound none sound) :=
  Join.course_conserves (Entry.course_conserves g)

/-- Entries in memory start sound if each of them is. -/
theorem joining_sound {entries : List (Entry C elem.State)}
    (h : ∀ e ∈ entries, e.Sound none sound) :
    Sound sound (.joining keys (.ofList entries) : Stage C elem.State) := by
  rw [Sound, Join.tasks_ofList]
  exact h

/-- And without a run. -/
theorem joining_runs {entries : List (Entry C elem.State)}
    (h : ∀ e ∈ entries, e.runs inner = []) :
    runs r inner (.joining keys (.ofList entries) : Stage C elem.State) = [] := by
  rw [runs, Join.tasks_ofList]
  exact List.flatMap_eq_nil_iff.2 h

theorem ofEntry_sizeRead (shape : Shape) : shape.sizeRead.ofEntry = false := by
  cases shape <;> rfl

/-- Asking for the size begins no read of an entry. -/
theorem closes_began (r' : Ref) (shape : Shape) :
    Closes (Event.begins r) (Event.finishes r) 0 [(.began r' shape.sizeRead : Event C)] := by
  refine ⟨?_, rfl⟩
  rw [List.countP_singleton, Event.begins, ofEntry_sizeRead, Bool.and_false]
  rfl

/-- And its answer ends none. -/
theorem closes_ended (r' : Ref) (shape : Shape) :
    Closes (Event.begins r) (Event.finishes r) 0 [(.ended r' shape.sizeRead : Event C)] := by
  refine ⟨rfl, ?_⟩
  rw [List.countP_singleton, Event.finishes, ofEntry_sizeRead, Bool.and_false]
  rfl

theorem sum_runs_start (r' : Ref) (contents : Contents) :
    (runs r inner (.reading r' contents .start : Stage C elem.State)).sum = 0 := by
  rw [runs]
  split <;> rfl

/-- **Conversions of containers conserve the load** if those of elements do. -/
theorem progress_conserves (g : Conversion.Gauged k r inner sound) :
    (progress S shape t id k).Conserves (Event.begins r) (Event.finishes r)
      (fun stage => (runs r inner stage).sum) (Sound sound) where
  keeps {stage _ _} hs step := by
    cases step with
    | asks => trivial
    | waits => trivial
    | answers r' => exact ⟨Nat.zero_le _, List.forall_mem_nil _⟩
    | reads step => exact ⟨step.size_le hs.1, (window_conserves g _ _).keeps hs.2 step⟩
    | list ordered starts =>
      obtain ⟨states, -⟩ := startsAll_sound g starts
      exact joining_sound (List.forall_mem_map.2 fun s mem => (states s mem).1)
    | dictionary entries keyed => exact joining_sound (List.forall_mem_map.2 fun _ _ => trivial)
    | joins step => exact (join_conserves g).keeps hs step
  moves {stage _ _} hs step := by
    cases step with
    | asks r' => exact (closes_began r' shape).eq_zero_add
    | waits => rfl
    | answers r' =>
      rw [sum_runs_start]
      exact ((closes_ended r' shape).append ((OnlyDiagnostics.one _).closes r)).eq_zero_add
    | reads step =>
      rw [sum_runs_reading hs.2, sum_runs_reading ((window_conserves g _ _).keeps hs.2 step)]
      exact (window_conserves g _ _).moves hs.2 step
    | list ordered starts =>
      obtain ⟨states, only⟩ := startsAll_sound g starts
      have none : ∀ s ∈ _, (Entry.converting none s : Entry C elem.State).runs inner = [] :=
        fun s mem => (states s mem).2
      rw [joining_runs (List.forall_mem_map.2 none)]
      exact (((OnlyDiagnostics.one _).append only).closes r).eq_zero_add
    | dictionary entries keyed =>
      rw [joining_runs (List.forall_mem_map.2 fun _ _ => rfl)]
      exact ((OnlyDiagnostics.one _).closes r).eq_zero_add
    | joins step =>
      rw [sum_runs_joining hs, sum_runs_joining ((join_conserves g).keeps hs step)]
      exact (join_conserves g).moves hs step
  alone hs step := by
    cases step with
    | asks => exact .inr rfl
    | waits => exact .inl rfl
    | answers r' => exact .inl rfl
    | reads step => exact (window_conserves g _ _).alone hs.2 step
    | list ordered starts =>
      exact .inl (((OnlyDiagnostics.one _).append (startsAll_sound g starts).2).closes r).begins_eq
    | dictionary => exact .inl rfl
    | joins step => exact (join_conserves g).alone hs step
  ends hs stops := by
    cases stops with
    | settled o => exact .nil
    | refusesList => exact .nil
    | refusesDictionary => exact .nil
    | reading stops =>
      rw [sum_runs_reading hs.2]
      exact (window_conserves g _ _).ends hs.2 stops
    | joining stops =>
      rw [sum_runs_joining hs]
      exact (join_conserves g).ends hs stops
  drops {stage} hs := by
    cases stage with
    | begun b => exact .nil
    | sizing r' left => exact closes_ended r' shape
    | reading r' contents w =>
      rw [sum_runs_reading hs.2]
      exact (window_conserves g r' contents).drops hs.2
    | joining keys join =>
      rw [sum_runs_joining hs]
      exact (join_conserves g).drops hs

/-- **Conversions of containers are gauged** if those of elements are. -/
theorem progress_gauged (g : Conversion.Gauged k r inner sound) :
    Conversion.Gauged (progress S shape t id k) r (runs r inner) (Sound sound) where
  conserves := progress_conserves g
  starts := by
    rintro v reports stage ⟨alive, rfl, rfl⟩
    rw [List.map_id]
    exact ⟨trivial, rfl, Variant.begin_log _⟩
  le := runs_le g

end Stage

/-! ## Conversions to any type -/

namespace Conversion

/-- **How conversions to a type proceed**, down to every read within. -/
def steps (S : Setting C) : (t : Ty C) → (of S t).Progress (Event C)
  | .seq k t => Stage.progress S (.sequence k) t id (steps S t)
  | .map k t => Stage.progress S (.mapping k) t id (steps S t)
  | t => (of S t).polls id

/-- **The runs over an object** in a conversion to a type: for each, how many of
its reads are in flight. -/
def runs (S : Setting C) (r : Ref) : (t : Ty C) → (of S t).State → List Nat
  | .seq _ t => Stage.runs r (runs S r t)
  | .map _ t => Stage.runs r (runs S r t)
  | _ => fun _ => []

/-- Sound conversions to a type. -/
def Sound (S : Setting C) : (t : Ty C) → (of S t).State → Prop
  | .seq _ t => Stage.Sound (Sound S t)
  | .map _ t => Stage.Sound (Sound S t)
  | _ => fun _ => True

theorem steps_covers (S : Setting C) (t : Ty C) : (steps S t).Covers id := by
  induction t with
  | seq k t ih => exact container_covers ih fun _ => rfl
  | map k t ih => exact container_covers ih fun _ => rfl
  | _ => exact polls_covers _ fun _ => rfl

/-- A scalar begins nothing and has nothing to end. -/
theorem scalar_conserves (S : Setting C) (t : Ty C) (begins finishes : Event C → Bool) :
    ((scalar S t).polls id).Conserves begins finishes (fun _ => 0) fun _ => True where
  keeps _ _ := trivial
  moves _ := fun ⟨_, polled, _⟩ => nomatch polled
  alone _ := fun ⟨_, polled, _⟩ => nomatch polled
  ends := by
    rintro _ _ _ - ⟨_, -, rfl⟩
    exact .nil
  drops _ := .nil

/-- All that it reports is diagnostics, at its start. -/
theorem scalar_starts {S : Setting C} (quiet : S.Quiet) {t : Ty C} {v : Variant C}
    {reports : List (Event C)} {s : (scalar S t).State}
    (starts : ((scalar S t).polls id).starts v reports s) : OnlyDiagnostics reports := by
  obtain ⟨R, -, rfl⟩ := starts
  rw [List.map_id]
  exact Variant.convert_log quiet t

theorem scalar_gauged {S : Setting C} (quiet : S.Quiet) (t : Ty C) (r : Ref) :
    Gauged ((scalar S t).polls id) r (fun _ => []) (fun _ => True) where
  conserves := scalar_conserves S t _ _
  starts starts := ⟨trivial, rfl, scalar_starts quiet starts⟩
  le := fun _ _ mem => (List.not_mem_nil mem).elim

/-- **Conversions to every type are gauged.** -/
theorem gauged {S : Setting C} (quiet : S.Quiet) (r : Ref) (t : Ty C) :
    Gauged (steps S t) r (runs S r t) (Sound S t) := by
  induction t with
  | seq k t ih => exact Stage.progress_gauged ih
  | map k t ih => exact Stage.progress_gauged ih
  | _ => exact scalar_gauged quiet _ r

end Conversion

/-! ## Conversions that are kept -/

namespace Pending

/-- How a kept conversion proceeds. -/
def steps (S : Setting C) (f : Pending C) :
    (Conversion.container S f.shape f.elem (Conversion.of S f.elem)).Progress (Event C) :=
  Stage.progress S f.shape f.elem id (Conversion.steps S f.elem)

theorem steps_covers (S : Setting C) (f : Pending C) : (f.steps S).Covers id :=
  Conversion.container_covers (Conversion.steps_covers S f.elem) fun _ => rfl

theorem finish_eq (S : Setting C) (held : RefSet) (f : Pending C) :
    f.finish S held = (Conversion.container S f.shape f.elem (Conversion.of S f.elem)).pollAll
      (List.replicate (f.pollLimit S) held) (.begun f.begun) :=
  Conversion.drive_eq _ _ _ _

end Pending

end DynValue
