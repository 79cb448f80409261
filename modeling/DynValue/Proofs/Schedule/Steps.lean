import DynValue.Proofs.Schedule.Moves

/-!
# Schedules in small steps

A poll of a task can do a lot: a task may itself be a scheduler of others.
To say what is the case *at every moment*, and not only between polls,
tasks are given smaller steps (`Course`), and a scheduler of such tasks
takes the steps of its tasks besides its own.

Steps may be taken in more ways than a scheduler takes them. What matters is
that every poll is a trail of them with the same reports
(`Window.run_follows`, `Join.poll_follows`), so that what all steps keep
holds at every moment of every run. Reports can be of another type than
those of the polls and say more, as long as they can be read as those.
-/

namespace DynValue.Schedule

variable {ε ε' φ τ α : Type}

/-! ## Refining trails -/

/-- **Steps that are trails of smaller steps** make trails of them. -/
theorem Trail.refine {σ : Type} {step : σ → List ε → σ → Prop} {small : σ → List ε' → σ → Prop}
    {erase : ε' → ε}
    (each : ∀ {s ℓ s'}, step s ℓ s' → ∃ r, r.map erase = ℓ ∧ Trail small s r s')
    {s s' : σ} {reports : List ε} (path : Trail step s reports s') :
    ∃ r, r.map erase = reports ∧ Trail small s r s' := by
  induction path with
  | refl => exact ⟨[], rfl, .refl _⟩
  | tail _ last ih =>
    obtain ⟨r, hr, path⟩ := ih
    obtain ⟨r', hr', rest⟩ := each last
    exact ⟨r ++ r', by rw [List.map_append, hr, hr'], path.trans rest⟩

/-- **Within a trail** every first part of the reports is a trail, up to part
of one more step. -/
theorem Trail.exists_of_prefix {σ : Type} {step : σ → List ε → σ → Prop} {s s' : σ}
    {reports first : List ε} (path : Trail step s reports s') (h : first <+: reports) :
    ∃ before s₁ rest, first = before ++ rest ∧ Trail step s before s₁
      ∧ (rest = [] ∨ ∃ more s₂, step s₁ more s₂ ∧ rest <+: more) := by
  -- from the end: either the last step is not reached, or all before it is reported
  induction path generalizing first with
  | refl =>
    rw [List.prefix_nil] at h
    exact ⟨[], s, [], h, .refl s, .inl rfl⟩
  | @tail s₁ s₂ reports more path last ih =>
    rcases List.prefix_or_prefix_of_prefix h (List.prefix_append _ _) with h' | ⟨rest, rfl⟩
    · exact ih h'
    · exact ⟨reports, s₁, rest, rfl, path,
        .inr ⟨more, s₂, last, (List.prefix_append_right_inj _).1 h⟩⟩

/-! ## Tasks -/

/-- **How tasks proceed**, in steps as small as one likes. -/
structure Course (φ τ α ε : Type) where
  /-- One step of a task. -/
  moves : τ → List ε → τ → Prop
  /-- The step in which a task finishes. -/
  ends : τ → List ε → Except φ α → Prop
  /-- The states in which a poll leaves a task waiting. -/
  rests : τ → Prop
  /-- What is reported when a task is dropped. -/
  drops : τ → List ε

namespace Course

/-- What is reported when tasks are dropped, one after the other. -/
def dropAll (k : Course φ τ α ε) (tasks : List (Nat × τ)) : List ε :=
  tasks.flatMap fun t => k.drops t.2

/-- What is reported when slots are dropped, one after the other. -/
def dropSlots (k : Course φ τ α ε) (slots : List (Slot τ α)) : List ε :=
  slots.flatMap fun
    | .running t => k.drops t
    | .done _ => []

/-- **A poll follows a course** if it is a trail of its steps, with the same
reports once the rest of what they say is erased. -/
inductive Follows (k : Course φ τ α ε') (erase : ε' → ε) (t : τ) :
    Logged ε (Poll τ (Except φ α)) → Prop
  | pending {t' : τ} {r : List ε'} (path : Trail k.moves t r t') (rests : k.rests t') :
      Follows k erase t ⟨r.map erase, .pending t'⟩
  | ready {t' : τ} {r last : List ε'} {o : Except φ α} (path : Trail k.moves t r t')
      (ends : k.ends t' last o) : Follows k erase t ⟨(r ++ last).map erase, .ready o⟩

/-- **A course covers a kind of task** if every poll follows it. -/
structure Covers (k : Course φ τ α ε') (kind : TaskKind ε φ τ α) (erase : ε' → ε) : Prop where
  polls : ∀ R t, k.Follows erase t (kind.poll R t)
  drops : ∀ t, (k.drops t).map erase = kind.dropped t

variable {k : Course φ τ α ε'} {kind : TaskKind ε φ τ α} {erase : ε' → ε}

theorem Follows.head {t t' : τ} {r : List ε'} {x : Logged ε (Poll τ (Except φ α))}
    (path : Trail k.moves t r t') (h : k.Follows erase t' x) :
    k.Follows erase t ⟨r.map erase ++ x.log, x.value⟩ := by
  cases h with
  | pending rest rests =>
    rw [← List.map_append]
    exact .pending (path.trans rest) rests
  | ready rest ends =>
    rw [← List.map_append, ← List.append_assoc]
    exact .ready (path.trans rest) ends

theorem Follows.of_move {t t' : τ} (move : k.moves t [] t') (rests : k.rests t') :
    k.Follows erase t ⟨[], .pending t'⟩ :=
  .pending (.single move) rests

theorem Follows.of_ends {t : τ} {o : Except φ α} (ends : k.ends t [] o) :
    k.Follows erase t ⟨[], .ready o⟩ :=
  .ready (.refl t) ends

/-- **A poll that leaves a task waiting**, and one in which it finishes. -/
theorem Covers.pending (cov : k.Covers kind erase) {R : RefSet} {t t' : τ}
    (polled : (kind.poll R t).value = .pending t') :
    k.rests t' ∧ ∃ r, r.map erase = (kind.poll R t).log ∧ Trail k.moves t r t' := by
  have follows := cov.polls R t
  generalize kind.poll R t = x at follows polled ⊢
  cases follows with
  | pending path rests =>
    obtain rfl := Poll.pending.inj polled
    exact ⟨rests, _, rfl, path⟩
  | ready path ends => cases polled

theorem Covers.ready (cov : k.Covers kind erase) {R : RefSet} {t : τ} {o : Except φ α}
    (polled : (kind.poll R t).value = .ready o) :
    ∃ t' r last, (r ++ last).map erase = (kind.poll R t).log ∧ Trail k.moves t r t'
      ∧ k.ends t' last o := by
  have follows := cov.polls R t
  generalize kind.poll R t = x at follows polled ⊢
  cases follows with
  | pending path rests => cases polled
  | ready path ends =>
    obtain rfl := Poll.ready.inj polled
    exact ⟨_, _, _, rfl, path, ends⟩

theorem Covers.dropAll (h : k.Covers kind erase) (tasks : List (Nat × τ)) :
    (k.dropAll tasks).map erase = kind.dropAll tasks := by
  unfold Course.dropAll TaskKind.dropAll
  rw [List.map_flatMap]
  exact congrArg (fun f => tasks.flatMap f) (funext fun t => h.drops t.2)

theorem Covers.dropSlots (h : k.Covers kind erase) (slots : List (Slot τ α)) :
    (k.dropSlots slots).map erase = Slot.dropAll kind slots := by
  unfold Course.dropSlots Slot.dropAll
  rw [List.map_flatMap]
  refine congrArg (fun f => slots.flatMap f) (funext fun s => ?_)
  cases s with
  | running t => exact h.drops t
  | done a => rfl

/-! ### Moments -/

/-- **A moment of a run**: what is reported by then, and the state that the
run is in. Of the reports of a step under way, or of the end, there may be a
part. -/
inductive Moment (k : Course φ τ α ε) (start : τ) : List ε → τ → Prop
  | between {s : τ} {reports : List ε} (path : Trail k.moves start reports s) :
      Moment k start reports s
  | within {s s' : τ} {reports part whole : List ε} (path : Trail k.moves start reports s)
      (step : k.moves s whole s') (le : part <+: whole) : Moment k start (reports ++ part) s
  | ending {s : τ} {reports part whole : List ε} {o : Except φ α}
      (path : Trail k.moves start reports s) (ends : k.ends s whole o) (le : part <+: whole) :
      Moment k start (reports ++ part) s

/-- **Every first part of the reports** of a trail is what is reported by
some moment of it. -/
theorem exists_moment {k : Course φ τ α ε} {start s : τ} {reports first : List ε}
    (path : Trail k.moves start reports s) (h : first <+: reports) :
    ∃ s, k.Moment start first s := by
  obtain ⟨before, s₁, rest, rfl, path, rfl | ⟨more, s₂, step, le⟩⟩ := path.exists_of_prefix h
  · rw [List.append_nil]
    exact ⟨s₁, .between path⟩
  · exact ⟨s₁, .within path step le⟩

theorem exists_moment_of_ends {k : Course φ τ α ε} {start s : τ} {reports last first : List ε}
    {o : Except φ α} (path : Trail k.moves start reports s) (ends : k.ends s last o)
    (h : first <+: reports ++ last) : ∃ s, k.Moment start first s := by
  rcases List.prefix_or_prefix_of_prefix h (List.prefix_append _ _) with h' | ⟨rest, rfl⟩
  · exact exists_moment path h'
  · exact ⟨s, .ending path ends ((List.prefix_append_right_inj _).1 h)⟩

end Course

/-- **The polls of a kind of task** as its steps. -/
def TaskKind.course (kind : TaskKind ε φ τ α) (report : ε → ε') : Course φ τ α ε' where
  moves t reports t' := ∃ R, (kind.poll R t).value = .pending t'
    ∧ reports = (kind.poll R t).log.map report
  ends t reports o := ∃ R, (kind.poll R t).value = .ready o
    ∧ reports = (kind.poll R t).log.map report
  rests _ := True
  drops t := (kind.dropped t).map report

theorem TaskKind.course_covers (kind : TaskKind ε φ τ α) {report : ε → ε'} {erase : ε' → ε}
    (he : ∀ event, erase (report event) = event) : (kind.course report).Covers kind erase := by
  have same : ∀ log : List ε, (log.map report).map erase = log := fun log => by
    rw [List.map_map, show erase ∘ report = id from funext he, List.map_id]
  refine ⟨fun R t => ?_, fun t => same _⟩
  cases polled : (kind.poll R t).value with
  | pending t' =>
    have follows : (kind.course report).Follows erase t
        ⟨((kind.poll R t).log.map report).map erase, .pending t'⟩ :=
      .pending (.single ⟨R, polled, rfl⟩) trivial
    rwa [same, ← polled] at follows
  | ready o =>
    have follows : (kind.course report).Follows erase t
        ⟨([] ++ (kind.poll R t).log.map report).map erase, .ready o⟩ :=
      .ready (.refl t) ⟨R, polled, rfl⟩
    rwa [List.nil_append, same, ← polled] at follows

/-! ## Windows -/

namespace Window

/-- **One small step of a run.** Only the front task is worked on, and it goes
to the back when a poll leaves it waiting. -/
inductive Step (k : Course φ τ α ε) (width : Nat) (supply : Nat → Option τ) :
    Window φ τ α → List ε → Window φ τ α → Prop
  | begins {w : Window φ τ α} {t : τ} (room : w.queue.size < width)
      (next : supply w.begun = some t) :
      Step k width supply w []
        { w with queue := w.queue.push w.begun t, begun := w.begun + 1 }
  | works {w : Window φ τ α} {n : Nat} {t t' : τ} {others : List (Nat × τ)} {r : List ε}
      (front : w.queue.waiting = (n, t) :: others) (move : k.moves t r t') :
      Step k width supply w r
        { w with queue := { w.queue with waiting := (n, t') :: others } }
  | turns {w : Window φ τ α} {n : Nat} {t : τ} {others : List (Nat × τ)}
      (front : w.queue.waiting = (n, t) :: others) (rests : k.rests t) :
      Step k width supply w []
        { w with queue := { w.queue with waiting := others ++ [(n, t)] } }
  | finishes {w : Window φ τ α} {n : Nat} {t : τ} {others : List (Nat × τ)} {r : List ε}
      {o : Except φ α} (front : w.queue.waiting = (n, t) :: others) (ends : k.ends t r o) :
      Step k width supply w r
        { w with queue := { w.queue with
            waiting := others
            early := (n, o) :: w.queue.early } }
  | delivers {w : Window φ τ α} {a : α} {q : Queue φ τ α}
      (turn : w.queue.takeEarly? = some (.ok a, q)) :
      Step k width supply w [] { w with queue := q, delivered := w.delivered.push a }

/-- **The end of a run**: no task is left, or a failure is delivered. -/
inductive Stops (k : Course φ τ α ε) (width : Nat) (supply : Nat → Option τ) :
    Window φ τ α → List ε → Except φ (Array α) → Prop
  | finishes {w : Window φ τ α} (empty : w.queue.waiting = [])
      (missing : w.queue.takeEarly? = none)
      (full : supply w.begun = none ∨ width ≤ w.queue.size) :
      Stops k width supply w [] (.ok w.delivered)
  | fails {w : Window φ τ α} {q : Queue φ τ α} {e : φ}
      (turn : w.queue.takeEarly? = some (.error e, q)) :
      Stops k width supply w (k.dropAll q.waiting) (.error e)

/-- How a run proceeds. -/
def course (k : Course φ τ α ε) (width : Nat) (supply : Nat → Option τ) :
    Course φ (Window φ τ α) (Array α) ε where
  moves := Step k width supply
  ends := Stops k width supply
  rests _ := True
  drops w := k.dropAll w.queue.waiting

variable {k : Course φ τ α ε'} {kind : TaskKind ε φ τ α} {erase : ε' → ε} {width : Nat}
  {supply : Nat → Option τ} {held : RefSet} {w w' : Window φ τ α} {reports : List ε}

/-- Work on the front task is work on the run. -/
theorem step_front {n : Nat} {t t' : τ} {others : List (Nat × τ)} {r : List ε'}
    (front : w.queue.waiting = (n, t) :: others) (path : Trail k.moves t r t') :
    Trail (Step k width supply) w r
      { w with queue := { w.queue with waiting := (n, t') :: others } } := by
  induction path with
  | refl =>
    have same : { w with queue := { w.queue with waiting := (n, t) :: others } } = w := by
      rw [← front]
    rw [same]
    exact .refl w
  | tail _ last ih => exact ih.tail (.works rfl last)

theorem move_covered (cov : k.Covers kind erase)
    (m : Move kind width supply held w reports w') :
    ∃ r, r.map erase = reports ∧ Trail (Step k width supply) w r w' := by
  cases m with
  | begins room next => exact ⟨[], rfl, .single (.begins room next)⟩
  | delivers turn => exact ⟨[], rfl, .single (.delivers turn)⟩
  | polls m =>
    cases m with
    | waits m =>
      cases m with
      | intro front polled =>
        obtain ⟨rests, r, hr, path⟩ := cov.pending polled
        -- the poll is done at the front, and then the task goes to the back
        refine ⟨r ++ [], by rw [List.append_nil, hr], (step_front front path).tail ?_⟩
        exact .turns rfl rests
    | finishes m =>
      cases m with
      | intro front polled =>
        obtain ⟨t', r, last, hr, path, ends⟩ := cov.ready polled
        exact ⟨r ++ last, hr, (step_front front path).tail (.finishes rfl ends)⟩

/-- **Every poll of a run** is a trail of small steps. -/
theorem run_follows (cov : k.Covers kind erase) (n : Nat) (w : Window φ τ α) :
    (course k width supply).Follows erase w (w.run kind width supply held n) := by
  have polled := w.run_polled kind width supply held n
  generalize w.run kind width supply held n = x at polled
  have small : ∀ {w' : Window φ τ α} {reports : List ε},
      Trail (Move kind width supply held) w reports w' →
      ∃ r, r.map erase = reports ∧ Trail (Step k width supply) w r w' :=
    fun path => path.refine (fun m => move_covered cov m)
  cases polled with
  | stalls stalled =>
    obtain ⟨r, rfl, small⟩ := small (stalled.trail (fun m => m.move))
    exact .pending small trivial
  | tires path delivered =>
    obtain ⟨r, rfl, small⟩ := small path
    exact .pending small trivial
  | finishes path empty missing full =>
    obtain ⟨r, rfl, small⟩ := small path
    rw [← List.append_nil r]
    exact .ready small (.finishes empty missing full)
  | fails path turn =>
    obtain ⟨r, rfl, small⟩ := small path
    rw [Queue.dropped, ← cov.dropAll, ← List.map_append]
    exact .ready small (.fails turn)

end Window

/-! ## Joins -/

namespace Join

/-- **One small step of tasks waited for together.** -/
inductive Step (k : Course φ τ α ε) : Join φ τ α → List ε → Join φ τ α → Prop
  | works {before behind : List (Slot τ α)} {t t' : τ} {r : List ε} (move : k.moves t r t') :
      Step k (.rounds (before ++ .running t :: behind)) r
        (.rounds (before ++ .running t' :: behind))
  | finishes {before behind : List (Slot τ α)} {t : τ} {r : List ε} {a : α}
      (ends : k.ends t r (.ok a)) :
      Step k (.rounds (before ++ .running t :: behind)) r
        (.rounds (before ++ .done a :: behind))
  | run {w w' : Window φ τ α} {r : List ε} (step : Window.Step k 0 (fun _ => none) w r w') :
      Step k (.run w) r (.run w')

/-- **The end of a join**: every task has succeeded, or one fails. -/
inductive Stops (k : Course φ τ α ε) :
    Join φ τ α → List ε → Except φ (List α) → Prop
  | completes (results : List α) : Stops k (.rounds (results.map .done)) [] (.ok results)
  | fails {before behind : List (Slot τ α)} {t : τ} {r : List ε} {e : φ}
      (ends : k.ends t r (.error e)) :
      Stops k (.rounds (before ++ .running t :: behind))
        (r ++ (k.dropSlots before ++ k.dropSlots behind)) (.error e)
  | run {w : Window φ τ α} {r : List ε} {o : Except φ (Array α)}
      (stops : Window.Stops k 0 (fun _ => none) w r o) :
      Stops k (.run w) r (o.map Array.toList)

/-- How a join proceeds. -/
def course (k : Course φ τ α ε) : Course φ (Join φ τ α) (List α) ε where
  moves := Step k
  ends := Stops k
  rests _ := True
  drops
    | .rounds slots => k.dropSlots slots
    | .run w => k.dropAll w.queue.waiting

variable {k : Course φ τ α ε'} {kind : TaskKind ε φ τ α} {erase : ε' → ε}
  {held : RefSet} {join join' : Join φ τ α} {reports : List ε}

/-- Work on a running task is work on the join. -/
theorem step_running {before behind : List (Slot τ α)} {t t' : τ} {r : List ε'}
    (path : Trail k.moves t r t') :
    Trail (Step k) (.rounds (before ++ .running t :: behind)) r
      (.rounds (before ++ .running t' :: behind)) := by
  induction path with
  | refl => exact .refl _
  | tail _ last ih => exact ih.tail (.works last)

theorem move_covered (cov : k.Covers kind erase) (m : Move kind held join reports join') :
    ∃ r, r.map erase = reports ∧ Trail (Step k) join r join' := by
  cases m with
  | run move =>
    obtain ⟨r, hr, path⟩ := Window.move_covered cov move
    exact ⟨r, hr, path.map Join.run .run⟩
  | rounds move =>
    cases move with
    | waits m =>
      obtain ⟨polled⟩ := m
      obtain ⟨-, r, hr, path⟩ := cov.pending polled
      exact ⟨r, hr, step_running path⟩
    | finishes m =>
      obtain ⟨polled⟩ := m
      obtain ⟨t', r, last, hr, path, ends⟩ := cov.ready polled
      exact ⟨r ++ last, hr, (step_running path).tail (.finishes ends)⟩

/-- **Every poll of a join** is a trail of small steps. -/
theorem poll_follows (cov : k.Covers kind erase) (join : Join φ τ α) :
    (course k).Follows erase join (join.poll kind held) := by
  have polled := join.poll_polled kind held
  generalize join.poll kind held = x at polled
  have small : ∀ {join' : Join φ τ α} {reports : List ε},
      Trail (Move kind held) join reports join' →
      ∃ r, r.map erase = reports ∧ Trail (Step k) join r join' :=
    fun path => path.refine (fun m => move_covered cov m)
  cases polled with
  | stalls stalled =>
    obtain ⟨r, rfl, small⟩ := small (stalled.trail (fun m => m.move))
    exact .pending small trivial
  | tires start path delivered =>
    subst start
    obtain ⟨r, rfl, small⟩ := small (path.map Join.run .run)
    exact .pending small trivial
  | @completes _ _ results path complete =>
    obtain ⟨r, rfl, small⟩ := small path
    rw [← List.append_nil r]
    cases complete with
    | rounds results => exact .ready small (.completes results)
    | run empty missing => exact .ready small (.run (.finishes empty missing (.inl rfl)))
  | fails path failure =>
    obtain ⟨r, rfl, small⟩ := small path
    cases failure with
    | run turn =>
      rw [Queue.dropped, ← cov.dropAll, ← List.map_append]
      exact .ready small (.run (.fails turn))
    | rounds failure =>
      obtain ⟨polled⟩ := failure
      -- the failing poll, and then what the drop of all others reports
      obtain ⟨t', r', last, hr', steps, ends⟩ := cov.ready polled
      rw [← hr', ← cov.dropSlots, ← cov.dropSlots, ← List.map_append, ← List.map_append,
        ← List.map_append, List.append_assoc, ← List.append_assoc]
      exact .ready (small.trans (step_running steps)) (.fails ends)

end Join

end DynValue.Schedule
