import DynValue.Schedule.Join

/-!
# What a poll of a scheduler is made of

A poll of a queue, a window or a join polls many tasks, and the functions
that do it recurse with fuel. Seen from outside it is a sequence of small
**moves**, each of which polls one task or none: a task is begun, the front
task has to wait or finishes, a result whose turn has come is delivered.

This module says so once. `Window.run_polled` and `Join.poll_polled` list
how a poll can end, each time with the moves that lead there and with what
they report. Whatever is to be shown of every poll follows from what one
move does.
-/

namespace DynValue.Schedule

/-! ## Trails -/

section Trails

variable {σ ε : Type}

/-- **Zero or more steps**, with all that they report. -/
inductive Trail (step : σ → List ε → σ → Prop) : σ → List ε → σ → Prop
  | refl (s : σ) : Trail step s [] s
  | tail {s s' s'' : σ} {reports more : List ε} (path : Trail step s reports s')
      (last : step s' more s'') : Trail step s (reports ++ more) s''

/-- **Steps of which one at least is a wait.** -/
inductive Stalled (step wait : σ → List ε → σ → Prop) : σ → List ε → σ → Prop
  | intro {s s₁ s₂ s' : σ} {before between after : List ε} (path : Trail step s before s₁)
      (waits : wait s₁ between s₂) (rest : Trail step s₂ after s') :
      Stalled step wait s (before ++ between ++ after) s'

namespace Trail

variable {step : σ → List ε → σ → Prop} {s s' s'' : σ} {reports more : List ε}

theorem single (h : step s reports s') : Trail step s reports s' := .tail (.refl s) h

theorem trans (path : Trail step s reports s') (rest : Trail step s' more s'') :
    Trail step s (reports ++ more) s'' := by
  induction rest with
  | refl => rwa [List.append_nil]
  | tail _ last ih =>
    rw [← List.append_assoc]
    exact ih.tail last

theorem head (first : step s reports s') (rest : Trail step s' more s'') :
    Trail step s (reports ++ more) s'' :=
  (single first).trans rest

/-- **What every step keeps, every trail keeps.** -/
theorem invariant {P : σ → Prop} (path : Trail step s reports s')
    (keeps : ∀ {s ℓ s'}, P s → step s ℓ s' → P s') (h : P s) : P s' := by
  induction path with
  | refl => exact h
  | tail _ last ih => exact keeps ih last

/-- A trail can be followed inside a larger state. -/
theorem map {σ' : Type} {step' : σ' → List ε → σ' → Prop} (f : σ → σ')
    (lift : ∀ {s ℓ s'}, step s ℓ s' → step' (f s) ℓ (f s')) (path : Trail step s reports s') :
    Trail step' (f s) reports (f s') := by
  induction path with
  | refl => exact .refl _
  | tail _ last ih => exact ih.tail (lift last)

end Trail

namespace Stalled

variable {step wait : σ → List ε → σ → Prop} {s s' s'' : σ} {reports more : List ε}

theorem trans (path : Trail step s reports s') (h : Stalled step wait s' more s'') :
    Stalled step wait s (reports ++ more) s'' := by
  obtain ⟨before, waits, rest⟩ := h
  rw [← List.append_assoc, ← List.append_assoc]
  exact ⟨path.trans before, waits, rest⟩

theorem head (first : step s reports s') (h : Stalled step wait s' more s'') :
    Stalled step wait s (reports ++ more) s'' :=
  h.trans (.single first)

/-- A stalled trail is a trail. -/
theorem trail (h : Stalled step wait s reports s')
    (isStep : ∀ {s ℓ s'}, wait s ℓ s' → step s ℓ s') : Trail step s reports s' := by
  obtain ⟨path, waits, rest⟩ := h
  exact (path.tail (isStep waits)).trans rest

theorem head_wait (first : wait s reports s') (rest : Trail step s' more s'') :
    Stalled step wait s (reports ++ more) s'' := by
  have h : Stalled step wait s ([] ++ reports ++ more) s'' := ⟨.refl s, first, rest⟩
  rwa [List.nil_append] at h

theorem of_wait (waits : wait s reports s') : Stalled step wait s reports s' := by
  rw [← List.append_nil reports]
  exact head_wait waits (.refl s')

theorem map {σ' : Type} {step' wait' : σ' → List ε → σ' → Prop} (f : σ → σ')
    (lift : ∀ {s ℓ s'}, step s ℓ s' → step' (f s) ℓ (f s'))
    (liftWait : ∀ {s ℓ s'}, wait s ℓ s' → wait' (f s) ℓ (f s'))
    (h : Stalled step wait s reports s') : Stalled step' wait' (f s) reports (f s') := by
  obtain ⟨path, waits, rest⟩ := h
  exact ⟨path.map f lift, liftWait waits, rest.map f lift⟩

/-- **What no step makes larger and a wait makes smaller** is smaller after
a stalled trail. `P` is what the steps keep meanwhile. -/
theorem weight_lt {P : σ → Prop} {weight : σ → Nat} (h : Stalled step wait s reports s')
    (isStep : ∀ {s ℓ s'}, wait s ℓ s' → step s ℓ s')
    (keeps : ∀ {s ℓ s'}, P s → step s ℓ s' → P s' ∧ weight s' ≤ weight s)
    (lighter : ∀ {s ℓ s'}, P s → wait s ℓ s' → weight s' < weight s) (hs : P s) :
    weight s' < weight s := by
  have along : ∀ {s ℓ s'}, Trail step s ℓ s' → P s → P s' ∧ weight s' ≤ weight s := by
    intro s ℓ s' path hs
    induction path with
    | refl => exact ⟨hs, Nat.le_refl _⟩
    | tail _ last ih => exact ⟨(keeps ih.1 last).1, Nat.le_trans (keeps ih.1 last).2 ih.2⟩
  obtain ⟨path, waits, rest⟩ := h
  obtain ⟨h₁, before⟩ := along path hs
  have after := (along rest (keeps h₁ (isStep waits)).1).2
  exact Nat.lt_of_lt_of_le (Nat.lt_of_le_of_lt after (lighter h₁ waits)) before

end Stalled

end Trails

variable {ε φ τ α : Type} {kind : TaskKind ε φ τ α}

/-! ## Queues -/

namespace Queue

variable {held : RefSet} {q q' : Queue φ τ α}

/-- What is held around the front task, with `others` behind it. -/
def around (kind : TaskKind ε φ τ α) (held : RefSet) (q : Queue φ τ α)
    (others : List (Nat × τ)) : RefSet :=
  RefSet.union (RefSet.union held (q.heldByEarly kind)) (kind.heldByTasks others)

/-- **The front task is polled and has to wait**: it goes to the back. -/
inductive Waits (kind : TaskKind ε φ τ α) (held : RefSet) :
    Queue φ τ α → List ε → Queue φ τ α → Prop
  | intro {q : Queue φ τ α} {number : Nat} {task task' : τ} {others : List (Nat × τ)}
      (front : q.waiting = (number, task) :: others)
      (polled : (kind.poll (q.around kind held others) task).value = .pending task') :
      Waits kind held q (kind.poll (q.around kind held others) task).log
        { q with waiting := others ++ [(number, task')] }

/-- **The front task is polled and finishes**: its outcome is kept. -/
inductive Finishes (kind : TaskKind ε φ τ α) (held : RefSet) :
    Queue φ τ α → List ε → Queue φ τ α → Prop
  | intro {q : Queue φ τ α} {number : Nat} {task : τ} {others : List (Nat × τ)}
      {outcome : Except φ α} (front : q.waiting = (number, task) :: others)
      (polled : (kind.poll (q.around kind held others) task).value = .ready outcome) :
      Finishes kind held q (kind.poll (q.around kind held others) task).log
        { q with waiting := others, early := (number, outcome) :: q.early }

/-- **One move of a queue**: its front task is polled. -/
inductive Move (kind : TaskKind ε φ τ α) (held : RefSet) (q : Queue φ τ α)
    (reports : List ε) (q' : Queue φ τ α) : Prop
  | waits (h : Waits kind held q reports q')
  | finishes (h : Finishes kind held q reports q')

theorem Waits.length_waiting {reports : List ε} (h : Waits kind held q reports q') :
    q'.waiting.length = q.waiting.length := by
  obtain ⟨front, -⟩ := h
  rw [front, List.length_append]
  rfl

theorem Finishes.length_waiting {reports : List ε} (h : Finishes kind held q reports q') :
    q'.waiting.length + 1 = q.waiting.length := by
  obtain ⟨front, -⟩ := h
  rw [front]
  rfl

/-- A task polled stays begun and undelivered. -/
theorem Move.size_eq {reports : List ε} (h : Move kind held q reports q') :
    q'.size = q.size := by
  cases h with
  | waits h =>
    have := h.length_waiting
    obtain ⟨front, -⟩ := h
    simp only [size]
    rw [this]
  | finishes h =>
    have := h.length_waiting
    obtain ⟨front, -⟩ := h
    simp only [size, List.length_cons] at this ⊢
    omega

/-- **How a sweep ends**, of a queue with the given waiting tasks. -/
inductive Swept (kind : TaskKind ε φ τ α) (held : RefSet) (n : Nat) (q : Queue φ τ α) :
    Logged ε (Sweep φ τ α) → Prop
  | finished {q₁ : Queue φ τ α} {reports last : List ε} {number : Nat}
      {outcome : Except φ α} {waiting : List (Nat × τ)}
      (path : Trail (Waits kind held) q reports q₁)
      (finishes : Finishes kind held q₁ last
        { q with waiting := waiting, early := (number, outcome) :: q.early }) :
      Swept kind held n q ⟨reports ++ last, .finished number outcome waiting⟩
  | waits {reports : List ε} {waiting : List (Nat × τ)}
      (stalled : Stalled (Move kind held) (Waits kind held) q reports
        { q with waiting := waiting }) :
      Swept kind held n q ⟨reports, .waits waiting⟩
  | tires (zero : n = 0) (busy : q.waiting ≠ []) : Swept kind held n q ⟨[], .waits q.waiting⟩
  | idle (empty : q.waiting = []) : Swept kind held n q ⟨[], .idle⟩

theorem sweep_cons_pending {n number : Nat} {task task' : τ} {others : List (Nat × τ)}
    (polled : (kind.poll (RefSet.union held (kind.heldByTasks others)) task).value
      = .pending task') :
    sweep kind held (n + 1) ((number, task) :: others)
      = ⟨(kind.poll (RefSet.union held (kind.heldByTasks others)) task).log
          ++ (sweep kind held n (others ++ [(number, task')])).log,
        (sweep kind held n (others ++ [(number, task')])).value⟩ := by
  rw [sweep]
  refine Logged.ext_parts ?_ ?_
  · rw [Logged.log_bind, polled]
  · rw [Logged.value_bind, polled]

theorem sweep_cons_ready {n number : Nat} {task : τ} {others : List (Nat × τ)}
    {outcome : Except φ α}
    (polled : (kind.poll (RefSet.union held (kind.heldByTasks others)) task).value
      = .ready outcome) :
    sweep kind held (n + 1) ((number, task) :: others)
      = ⟨(kind.poll (RefSet.union held (kind.heldByTasks others)) task).log,
        .finished number outcome others⟩ := by
  rw [sweep]
  refine Logged.ext_parts ?_ ?_
  · rw [Logged.log_bind, polled]
    exact List.append_nil _
  · rw [Logged.value_bind, polled]
    rfl

theorem sweep_swept (kind : TaskKind ε φ τ α) (held : RefSet) (n : Nat) (q : Queue φ τ α) :
    Swept kind held n q
      (sweep kind (RefSet.union held (q.heldByEarly kind)) n q.waiting) := by
  induction n generalizing q with
  | zero =>
    cases hw : q.waiting with
    | nil => exact .idle hw
    | cons front others =>
      show Swept kind held 0 q ⟨[], .waits (front :: others)⟩
      rw [← hw]
      exact .tires rfl (hw ▸ List.cons_ne_nil _ _)
  | succ n ih =>
    cases hw : q.waiting with
    | nil => exact .idle hw
    | cons front others =>
      obtain ⟨number, task⟩ := front
      cases hp : (kind.poll (q.around kind held others) task).value with
      | ready outcome =>
        rw [sweep_cons_ready hp]
        exact .finished (.refl q) (.intro hw hp)
      | pending task' =>
        rw [sweep_cons_pending hp]
        have first : Waits kind held q _ { q with waiting := others ++ [(number, task')] } :=
          .intro hw hp
        have rest : Swept kind held n { q with waiting := others ++ [(number, task')] }
            (sweep kind (RefSet.union held (q.heldByEarly kind)) n
              (others ++ [(number, task')])) := ih _
        generalize sweep kind _ n (others ++ [(number, task')]) = x at rest ⊢
        cases rest with
        | finished path finishes =>
          show Swept kind held (n + 1) q ⟨_ ++ (_ ++ _), _⟩
          rw [← List.append_assoc]
          exact .finished (path.head first) finishes
        | waits stalled => exact .waits (stalled.head (.waits first))
        | tires zero =>
          show Swept kind held (n + 1) q ⟨_ ++ [], .waits (others ++ [(number, task')])⟩
          rw [List.append_nil]
          exact .waits (.of_wait first)
        | idle empty => exact absurd empty (List.append_ne_nil_of_right_ne_nil _ (by simp))

/-! ### Looking for the next result -/

/-- **How the search for the next result ends.** -/
inductive Sought (kind : TaskKind ε φ τ α) (held : RefSet) (q : Queue φ τ α) :
    Logged ε (Delivery φ τ α) → Prop
  | item {q₁ q' : Queue φ τ α} {reports : List ε} {outcome : Except φ α}
      (path : Trail (Move kind held) q reports q₁)
      (turn : q₁.takeEarly? = some (outcome, q')) :
      Sought kind held q ⟨reports, .item outcome q'⟩
  | waits {q' : Queue φ τ α} {reports : List ε}
      (stalled : Stalled (Move kind held) (Waits kind held) q reports q') :
      Sought kind held q ⟨reports, .waits q'⟩
  | drained {q' : Queue φ τ α} {reports : List ε}
      (path : Trail (Move kind held) q reports q') (empty : q'.waiting = [])
      (missing : q'.takeEarly? = none) :
      Sought kind held q ⟨reports, .drained⟩

theorem takeEarly?_eq_none_iff :
    q.takeEarly? = none ↔ ∀ r ∈ q.early, r.1 ≠ q.next := by
  unfold takeEarly?
  split
  · rename_i r h
    refine iff_of_false (Option.some_ne_none _) (fun none => ?_)
    exact none r (List.mem_of_find?_eq_some h) (by simpa using List.find?_some h)
  · rename_i h
    refine iff_of_true rfl (fun r hr same => ?_)
    exact absurd (List.find?_eq_none.1 h r hr) (by simpa using same)

/-- An outcome whose turn it is when it comes is taken at once. -/
theorem takeEarly?_cons {outcome : Except φ α} (missing : ∀ r ∈ q.early, r.1 ≠ q.next) :
    ({ q with early := (q.next, outcome) :: q.early } : Queue φ τ α).takeEarly?
      = some (outcome, { q with next := q.next + 1 }) := by
  have others : q.early.filter (fun r => r.1 != q.next) = q.early :=
    List.filter_eq_self.2 (fun r hr => by simpa using missing r hr)
  unfold takeEarly?
  simp [others]

theorem patience_ne_zero (h : q.waiting ≠ []) : patience q.waiting ≠ 0 := by
  have := List.length_pos_iff.2 h
  unfold patience
  omega

theorem search_sought (kind : TaskKind ε φ τ α) (held : RefSet) (n : Nat)
    (q : Queue φ τ α) (enough : q.waiting.length < n)
    (missing : ∀ r ∈ q.early, r.1 ≠ q.next) :
    Sought kind held q (q.search kind held n) := by
  induction n generalizing q with
  | zero => exact absurd enough (Nat.not_lt_zero _)
  | succ n ih =>
    have swept := sweep_swept kind held (patience q.waiting) q
    rw [search]
    generalize sweep kind _ (patience q.waiting) q.waiting = x at swept ⊢
    cases swept with
    | waits stalled =>
      show Sought kind held q ⟨_ ++ [], .waits _⟩
      rw [List.append_nil]
      exact .waits stalled
    | tires zero busy => exact absurd zero (patience_ne_zero busy)
    | idle empty => exact .drained (.refl q) empty (takeEarly?_eq_none_iff.2 missing)
    | @finished q₁ reports last number outcome waiting path finishes =>
      have along : Trail (Move kind held) q (reports ++ last) _ :=
        (path.map id .waits).tail (.finishes finishes)
      rw [Logged.mk_bind]
      by_cases turn : number = q.next
      · subst turn
        simp only [if_true]
        show Sought kind held q ⟨_ ++ [], .item _ _⟩
        rw [List.append_nil]
        exact .item along (takeEarly?_cons (q := { q with waiting := waiting }) missing)
      · simp only [turn, if_false]
        have shorter : waiting.length < n := by
          have : waiting.length + 1 = q₁.waiting.length := finishes.length_waiting
          have same : q₁.waiting.length = q.waiting.length :=
            path.invariant (P := fun q' => q'.waiting.length = q.waiting.length)
              (fun h wait => wait.length_waiting.trans h) rfl
          omega
        have rest := ih { q with waiting := waiting, early := (number, outcome) :: q.early }
          shorter (List.forall_mem_cons.2 ⟨turn, missing⟩)
        generalize search kind held n _ = y at rest ⊢
        cases rest with
        | item path turn => exact .item (along.trans path) turn
        | waits stalled => exact .waits (stalled.trans along)
        | drained path empty missing => exact .drained (along.trans path) empty missing

/-- **Looking for the next result** is a trail of moves. -/
theorem deliver_sought (kind : TaskKind ε φ τ α) (held : RefSet) (q : Queue φ τ α) :
    Sought kind held q (q.deliver kind held) := by
  unfold deliver
  split
  · rename_i outcome q' turn
    exact .item (.refl q) turn
  · rename_i missing
    exact search_sought kind held _ q (Nat.lt_succ_self _) (takeEarly?_eq_none_iff.1 missing)

end Queue

/-! ## Windows -/

namespace Window

variable {width : Nat} {supply : Nat → Option τ} {held : RefSet} {w w' : Window φ τ α}

/-- **One move of a run**: a task is begun while there is room, the front
task is polled, or a result is delivered. -/
inductive Move (kind : TaskKind ε φ τ α) (width : Nat) (supply : Nat → Option τ)
    (held : RefSet) : Window φ τ α → List ε → Window φ τ α → Prop
  | begins {w : Window φ τ α} {task : τ} (room : w.queue.size < width)
      (next : supply w.begun = some task) :
      Move kind width supply held w []
        { w with queue := w.queue.push w.begun task, begun := w.begun + 1 }
  | polls {w : Window φ τ α} {reports : List ε} {q : Queue φ τ α}
      (move : Queue.Move kind (RefSet.union held (w.heldByDelivered kind)) w.queue reports q) :
      Move kind width supply held w reports { w with queue := q }
  | delivers {w : Window φ τ α} {a : α} {q : Queue φ τ α}
      (turn : w.queue.takeEarly? = some (.ok a, q)) :
      Move kind width supply held w []
        { w with queue := q, delivered := w.delivered.push a }

/-- The move in which the front task has to wait. -/
inductive Waits (kind : TaskKind ε φ τ α) (held : RefSet) :
    Window φ τ α → List ε → Window φ τ α → Prop
  | intro {w : Window φ τ α} {reports : List ε} {q : Queue φ τ α}
      (waits : Queue.Waits kind (RefSet.union held (w.heldByDelivered kind)) w.queue reports q) :
      Waits kind held w reports { w with queue := q }

theorem Waits.move {reports : List ε} (h : Waits kind held w reports w') :
    Move kind width supply held w reports w' := by
  obtain ⟨waits⟩ := h
  exact .polls (.waits waits)

/-- **Filling the window** begins tasks until there is no room or no task. -/
theorem refill_trail (kind : TaskKind ε φ τ α) (width : Nat) (supply : Nat → Option τ)
    (held : RefSet) (w : Window φ τ α) :
    Trail (Move kind width supply held) w [] (w.refill width supply)
      ∧ (supply (w.refill width supply).begun = none
        ∨ width ≤ (w.refill width supply).queue.size)
      ∧ (w.refill width supply).delivered = w.delivered := by
  unfold refill
  generalize hroom : width - w.queue.size = room
  induction room generalizing w with
  | zero => exact ⟨.refl w, .inr (Nat.le_of_sub_eq_zero hroom), rfl⟩
  | succ room ih =>
    unfold begin
    cases next : supply w.begun with
    | none => exact ⟨.refl w, .inl next, rfl⟩
    | some task =>
      have here : w.queue.size < width := by omega
      obtain ⟨path, full, same⟩ := ih
        { w with queue := w.queue.push w.begun task, begun := w.begun + 1 }
        (by rw [Queue.size_push]; omega)
      exact ⟨path.head (.begins here next), full, same⟩

/-- **How a poll of a run ends**, given the fuel `n`. -/
inductive Polled (kind : TaskKind ε φ τ α) (width : Nat) (supply : Nat → Option τ)
    (held : RefSet) (n : Nat) (w : Window φ τ α) :
    Logged ε (Poll (Window φ τ α) (Except φ (Array α))) → Prop
  | stalls {w' : Window φ τ α} {reports : List ε}
      (stalled : Stalled (Move kind width supply held) (Waits kind held) w reports w') :
      Polled kind width supply held n w ⟨reports, .pending w'⟩
  | tires {w' : Window φ τ α} {reports : List ε}
      (path : Trail (Move kind width supply held) w reports w')
      (delivered : w'.delivered.size = w.delivered.size + n) :
      Polled kind width supply held n w ⟨reports, .pending w'⟩
  | finishes {w' : Window φ τ α} {reports : List ε}
      (path : Trail (Move kind width supply held) w reports w')
      (empty : w'.queue.waiting = []) (missing : w'.queue.takeEarly? = none)
      (full : supply w'.begun = none ∨ width ≤ w'.queue.size) :
      Polled kind width supply held n w ⟨reports, .ready (.ok w'.delivered)⟩
  | fails {w' : Window φ τ α} {q : Queue φ τ α} {reports : List ε} {e : φ}
      (path : Trail (Move kind width supply held) w reports w')
      (turn : w'.queue.takeEarly? = some (.error e, q)) :
      Polled kind width supply held n w ⟨reports ++ q.dropped kind, .ready (.error e)⟩

theorem Polled.head {n : Nat} {reports : List ε}
    {x : Logged ε (Poll (Window φ τ α) (Except φ (Array α)))}
    (path : Trail (Move kind width supply held) w reports w')
    (delivered : w'.delivered.size + n = w.delivered.size + (n + 1))
    (h : Polled kind width supply held n w' x) :
    Polled kind width supply held (n + 1) w ⟨reports ++ x.log, x.value⟩ := by
  cases h with
  | stalls stalled => exact .stalls (stalled.trans path)
  | tires rest size => exact .tires (path.trans rest) (size.trans delivered)
  | finishes rest empty missing full => exact .finishes (path.trans rest) empty missing full
  | fails rest turn =>
    show Polled kind width supply held (n + 1) w ⟨_ ++ (_ ++ _), _⟩
    rw [← List.append_assoc]
    exact .fails (path.trans rest) turn

/-- **A poll of a run** is a trail of moves. -/
theorem run_polled (kind : TaskKind ε φ τ α) (width : Nat) (supply : Nat → Option τ)
    (held : RefSet) (n : Nat) (w : Window φ τ α) :
    Polled kind width supply held n w (w.run kind width supply held n) := by
  induction n generalizing w with
  | zero => exact .tires (.refl w) rfl
  | succ n ih =>
    obtain ⟨filling, full, same⟩ := refill_trail kind width supply held w
    rw [run]
    generalize w.refill width supply = w₁ at filling full same ⊢
    have sought := w₁.queue.deliver_sought kind
      (RefSet.union held (w₁.heldByDelivered kind))
    -- the moves of the queue are moves of the window around it
    have lift : ∀ {reports : List ε} {q : Queue φ τ α},
        Trail (Queue.Move kind (RefSet.union held (w₁.heldByDelivered kind)))
          w₁.queue reports q →
        Trail (Move kind width supply held) w reports { w₁ with queue := q } :=
      fun path => filling.trans
        (path.map (fun q => { w₁ with queue := q }) (fun move => .polls move))
    show Polled kind width supply held (n + 1) w
      (w₁.queue.deliver kind (RefSet.union held (w₁.heldByDelivered kind)) >>= _)
    generalize w₁.queue.deliver kind _ = x at sought ⊢
    cases sought with
    | @item q₁ q' reports outcome path turn =>
      cases outcome with
      | ok a =>
        have along : Trail (Move kind width supply held) w reports
            { w₁ with queue := q', delivered := w₁.delivered.push a } := by
          have := (lift path).tail (.delivers turn)
          rwa [List.append_nil] at this
        refine Polled.head along ?_ (ih _)
        rw [Array.size_push, same]
        omega
      | error e =>
        show Polled kind width supply held (n + 1) w ⟨reports ++ (q'.dropped kind ++ []), _⟩
        rw [List.append_nil]
        exact .fails (lift path) turn
    | waits stalled =>
      show Polled kind width supply held (n + 1) w ⟨_ ++ [], .pending _⟩
      rw [List.append_nil]
      exact .stalls (.trans filling (stalled.map (fun q => { w₁ with queue := q })
        (fun move => .polls move) (fun waits => .intro waits)))
    | @drained q' reports path empty missing =>
      show Polled kind width supply held (n + 1) w ⟨reports ++ [], _⟩
      rw [List.append_nil]
      have size : q'.size = w₁.queue.size :=
        path.invariant (P := fun q => q.size = w₁.queue.size)
          (fun h move => move.size_eq.trans h) rfl
      have final : Trail (Move kind width supply held) w reports { w₁ with queue := q' } :=
        lift path
      have ends : Polled kind width supply held (n + 1) w _ :=
        .finishes final empty missing (full.imp_right (fun h => size.symm ▸ h))
      exact ends

end Window

/-! ## Joins -/

namespace Slot

variable {held : RefSet} {slots slots' : List (Slot τ α)}

/-- What is held around a slot, between those before and those behind it. -/
def around (kind : TaskKind ε φ τ α) (held : RefSet) (before behind : List (Slot τ α)) :
    RefSet :=
  RefSet.union held (RefSet.union (allHold kind before) (allHold kind behind))

/-- **A running task is polled and has to wait.** -/
inductive Waits (kind : TaskKind ε φ τ α) (held : RefSet) :
    List (Slot τ α) → List ε → List (Slot τ α) → Prop
  | intro {before behind : List (Slot τ α)} {task task' : τ}
      (polled : (kind.poll (around kind held before behind) task).value = .pending task') :
      Waits kind held (before ++ running task :: behind)
        (kind.poll (around kind held before behind) task).log
        (before ++ running task' :: behind)

/-- **A running task is polled and succeeds.** -/
inductive Finishes (kind : TaskKind ε φ τ α) (held : RefSet) :
    List (Slot τ α) → List ε → List (Slot τ α) → Prop
  | intro {before behind : List (Slot τ α)} {task : τ} {a : α}
      (polled : (kind.poll (around kind held before behind) task).value = .ready (.ok a)) :
      Finishes kind held (before ++ running task :: behind)
        (kind.poll (around kind held before behind) task).log
        (before ++ done a :: behind)

/-- **A running task is polled and fails**: all others are dropped. -/
inductive Fails (kind : TaskKind ε φ τ α) (held : RefSet) :
    List (Slot τ α) → List ε → φ → Prop
  | intro {before behind : List (Slot τ α)} {task : τ} {e : φ}
      (polled : (kind.poll (around kind held before behind) task).value = .ready (.error e)) :
      Fails kind held (before ++ running task :: behind)
        ((kind.poll (around kind held before behind) task).log
          ++ (dropAll kind before ++ dropAll kind behind)) e

/-- **One move of tasks polled in rounds.** -/
inductive Move (kind : TaskKind ε φ τ α) (held : RefSet) (slots : List (Slot τ α))
    (reports : List ε) (slots' : List (Slot τ α)) : Prop
  | waits (h : Waits kind held slots reports slots')
  | finishes (h : Finishes kind held slots reports slots')

/-- **How a round ends** that has passed some slots already. -/
inductive Rounded (kind : TaskKind ε φ τ α) (held : RefSet) (passed slots : List (Slot τ α)) :
    Logged ε (Except φ (List (Slot τ α))) → Prop
  | completes {results : List α} {reports : List ε}
      (path : Trail (Move kind held) (passed ++ slots) reports (passed ++ results.map done)) :
      Rounded kind held passed slots ⟨reports, .ok (passed ++ results.map done)⟩
  | stalls {slots' : List (Slot τ α)} {reports : List ε} {task : τ}
      (stalled : Stalled (Move kind held) (Waits kind held) (passed ++ slots) reports slots')
      (unfinished : running task ∈ slots') :
      Rounded kind held passed slots ⟨reports, .ok slots'⟩
  | fails {slots' : List (Slot τ α)} {reports last : List ε} {e : φ}
      (path : Trail (Move kind held) (passed ++ slots) reports slots')
      (failure : Fails kind held slots' last e) :
      Rounded kind held passed slots ⟨reports ++ last, .error e⟩

theorem allHold_reverse (kind : TaskKind ε φ τ α) (slots : List (Slot τ α)) :
    allHold kind slots.reverse = allHold kind slots := by
  funext r
  exact List.any_reverse

theorem Rounded.of_done {passed : List (Slot τ α)} {a : α} {reports : List ε}
    {x : Logged ε (Except φ (List (Slot τ α)))}
    (first : Trail (Move kind held) (passed ++ slots) reports (passed ++ done a :: slots'))
    (h : Rounded kind held (passed ++ [done a]) slots' x) :
    Rounded kind held passed slots ⟨reports ++ x.log, x.value⟩ := by
  rw [List.append_cons] at first
  cases h with
  | @completes results _ path =>
    have cons : passed ++ [done a] ++ results.map done = passed ++ (a :: results).map done := by
      rw [List.append_assoc]
      rfl
    rw [cons] at path ⊢
    exact .completes (first.trans path)
  | stalls stalled unfinished => exact .stalls (stalled.trans first) unfinished
  | fails path failure =>
    show Rounded kind held passed slots ⟨reports ++ (_ ++ _), _⟩
    rw [← List.append_assoc]
    exact .fails (first.trans path) failure

theorem Rounded.of_waits {passed : List (Slot τ α)} {task : τ} {reports : List ε}
    {x : Logged ε (Except φ (List (Slot τ α)))}
    (first : Waits kind held (passed ++ slots) reports (passed ++ running task :: slots'))
    (h : Rounded kind held (passed ++ [running task]) slots' x) :
    Rounded kind held passed slots ⟨reports ++ x.log, x.value⟩ := by
  rw [List.append_cons] at first
  cases h with
  | completes path =>
    have unfinished : running task ∈ passed ++ [running task] :=
      List.mem_append_right _ (List.mem_singleton_self _)
    exact .stalls (.head_wait first path) (List.mem_append_left _ unfinished)
  | stalls stalled unfinished => exact .stalls (stalled.head (.waits first)) unfinished
  | fails path failure =>
    show Rounded kind held passed slots ⟨reports ++ (_ ++ _), _⟩
    rw [← List.append_assoc]
    exact .fails (path.head (.waits first)) failure

/-- **A round** is a trail of moves. -/
theorem round_rounded (kind : TaskKind ε φ τ α) (held : RefSet)
    (passed slots : List (Slot τ α)) :
    Rounded kind held passed.reverse slots (round kind held passed slots) := by
  induction slots generalizing passed with
  | nil =>
    have h : Rounded kind held passed.reverse [] ⟨[], .ok (passed.reverse ++ [].map done)⟩ :=
      .completes (.refl _)
    rwa [List.map_nil, List.append_nil] at h
  | cons slot slots ih =>
    cases slot with
    | done a =>
      have rest := ih (done a :: passed)
      rw [List.reverse_cons] at rest
      exact .of_done (.refl _) rest
    | running task =>
      rw [round]
      have same : RefSet.union held (RefSet.union (allHold kind passed) (allHold kind slots))
          = around kind held passed.reverse slots := by
        rw [around, allHold_reverse]
      rw [same]
      generalize hx : kind.poll (around kind held passed.reverse slots) task = x
      obtain ⟨log, answer⟩ := x
      have polled := congrArg Logged.value hx
      have first : (kind.poll (around kind held passed.reverse slots) task).log = log :=
        congrArg Logged.log hx
      rw [Logged.mk_bind]
      cases answer with
      | pending task' =>
        have rest := ih (running task' :: passed)
        rw [List.reverse_cons] at rest
        have wait : Waits kind held (passed.reverse ++ running task :: slots) _
            (passed.reverse ++ running task' :: slots) := .intro polled
        rw [first] at wait
        exact .of_waits wait rest
      | ready outcome =>
        cases outcome with
        | ok a =>
          have rest := ih (done a :: passed)
          rw [List.reverse_cons] at rest
          have finish : Finishes kind held (passed.reverse ++ running task :: slots) _
              (passed.reverse ++ done a :: slots) := .intro polled
          rw [first] at finish
          exact .of_done (.single (.finishes finish)) rest
        | error e =>
          show Rounded kind held passed.reverse (running task :: slots)
            ⟨log ++ (dropAll kind passed.reverse ++ dropAll kind slots ++ []), .error e⟩
          rw [List.append_nil, ← first]
          have failure : Fails kind held (passed.reverse ++ running task :: slots) _ e :=
            .intro polled
          rw [← List.nil_append (Logged.log _ ++ _)]
          exact .fails (.refl _) failure

end Slot

namespace Join

variable {held : RefSet} {join join' : Join φ τ α}

/-- **One move of tasks waited for together.** -/
inductive Move (kind : TaskKind ε φ τ α) (held : RefSet) :
    Join φ τ α → List ε → Join φ τ α → Prop
  | rounds {slots slots' : List (Slot τ α)} {reports : List ε}
      (move : Slot.Move kind held slots reports slots') :
      Move kind held (.rounds slots) reports (.rounds slots')
  | run {w w' : Window φ τ α} {reports : List ε}
      (move : Window.Move kind 0 (fun _ => none) held w reports w') :
      Move kind held (.run w) reports (.run w')

/-- The move in which a task has to wait. -/
inductive Waits (kind : TaskKind ε φ τ α) (held : RefSet) :
    Join φ τ α → List ε → Join φ τ α → Prop
  | rounds {slots slots' : List (Slot τ α)} {reports : List ε}
      (waits : Slot.Waits kind held slots reports slots') :
      Waits kind held (.rounds slots) reports (.rounds slots')
  | run {w w' : Window φ τ α} {reports : List ε}
      (waits : Window.Waits kind held w reports w') :
      Waits kind held (.run w) reports (.run w')

theorem Waits.move {reports : List ε} (h : Waits kind held join reports join') :
    Move kind held join reports join' := by
  cases h with
  | rounds waits => exact .rounds (.waits waits)
  | run waits => exact .run waits.move

/-- A join whose tasks have all succeeded, with these results. -/
inductive Complete : Join φ τ α → List α → Prop
  | rounds (results : List α) : Complete (.rounds (results.map .done)) results
  | run {w : Window φ τ α} (empty : w.queue.waiting = [])
      (missing : w.queue.takeEarly? = none) : Complete (.run w) w.delivered.toList

/-- A join that fails, with what it reports then. -/
inductive Fails (kind : TaskKind ε φ τ α) (held : RefSet) : Join φ τ α → List ε → φ → Prop
  | rounds {slots : List (Slot τ α)} {reports : List ε} {e : φ}
      (failure : Slot.Fails kind held slots reports e) :
      Fails kind held (.rounds slots) reports e
  | run {w : Window φ τ α} {q : Queue φ τ α} {e : φ}
      (turn : w.queue.takeEarly? = some (.error e, q)) :
      Fails kind held (.run w) (q.dropped kind) e

/-- **How a poll of a join ends.** -/
inductive Polled (kind : TaskKind ε φ τ α) (held : RefSet) (join : Join φ τ α) :
    Logged ε (Poll (Join φ τ α) (Except φ (List α))) → Prop
  | stalls {join' : Join φ τ α} {reports : List ε}
      (stalled : Stalled (Move kind held) (Waits kind held) join reports join') :
      Polled kind held join ⟨reports, .pending join'⟩
  | tires {w w' : Window φ τ α} {reports : List ε} (start : join = .run w)
      (path : Trail (Window.Move kind 0 (fun _ => none) held) w reports w')
      (delivered : w'.delivered.size = w.delivered.size + (w.queue.size + 1)) :
      Polled kind held join ⟨reports, .pending (.run w')⟩
  | completes {join' : Join φ τ α} {reports : List ε} {results : List α}
      (path : Trail (Move kind held) join reports join') (complete : Complete join' results) :
      Polled kind held join ⟨reports, .ready (.ok results)⟩
  | fails {join' : Join φ τ α} {reports last : List ε} {e : φ}
      (path : Trail (Move kind held) join reports join')
      (failure : Fails kind held join' last e) :
      Polled kind held join ⟨reports ++ last, .ready (.error e)⟩

theorem mapM_result?_done (results : List α) :
    (results.map Slot.done : List (Slot τ α)).mapM Slot.result? = some results := by
  induction results with
  | nil => rfl
  | cons a results ih => rw [List.map_cons, List.mapM_cons, ih]; rfl

theorem mapM_result?_eq_none {slots : List (Slot τ α)} {task : τ}
    (unfinished : Slot.running task ∈ slots) : slots.mapM Slot.result? = none := by
  induction slots with
  | nil => cases unfinished
  | cons slot slots ih =>
    rw [List.mapM_cons]
    cases unfinished with
    | head => rfl
    | tail _ later => rw [ih later]; cases slot.result? <;> rfl

/-- **A poll of a join** is a trail of moves. -/
theorem poll_polled (kind : TaskKind ε φ τ α) (held : RefSet) (join : Join φ τ α) :
    Polled kind held join (join.poll kind held) := by
  cases join with
  | rounds slots =>
    have rounded := Slot.round_rounded kind held [] slots
    rw [poll]
    generalize Slot.round kind held [] slots = x at rounded ⊢
    cases rounded with
    | @completes results reports path =>
      rw [List.reverse_nil, List.nil_append, Logged.mk_bind]
      simp only [mapM_result?_done, Logged.log_pure, Logged.value_pure, List.append_nil]
      exact .completes (path.map Join.rounds .rounds) (.rounds results)
    | stalls stalled unfinished =>
      rw [Logged.mk_bind]
      simp only [mapM_result?_eq_none unfinished, Logged.log_pure, Logged.value_pure,
        List.append_nil]
      exact .stalls (stalled.map Join.rounds .rounds .rounds)
    | fails path failure =>
      show Polled kind held (.rounds slots) ⟨_ ++ _ ++ [], _⟩
      rw [List.append_nil]
      exact .fails (path.map Join.rounds .rounds) (.rounds failure)
  | run w =>
    have polled := w.run_polled kind 0 (fun _ => none) held (w.queue.size + 1)
    rw [poll]
    generalize w.run kind 0 (fun _ => none) held (w.queue.size + 1) = x at polled ⊢
    cases polled with
    | stalls stalled =>
      show Polled kind held (.run w) ⟨_ ++ [], _⟩
      rw [List.append_nil]
      exact .stalls (stalled.map Join.run .run .run)
    | tires path delivered =>
      show Polled kind held (.run w) ⟨_ ++ [], _⟩
      rw [List.append_nil]
      exact .tires rfl path delivered
    | finishes path empty missing full =>
      show Polled kind held (.run w) ⟨_ ++ [], _⟩
      rw [List.append_nil]
      exact .completes (path.map Join.run .run) (.run empty missing)
    | fails path turn =>
      show Polled kind held (.run w) ⟨_ ++ _ ++ [], _⟩
      rw [List.append_nil]
      exact .fails (path.map Join.run .run) (.run turn)

end Join

end DynValue.Schedule
