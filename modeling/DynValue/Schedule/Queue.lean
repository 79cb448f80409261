import DynValue.Schedule.Task

/-!
# A queue of tasks with results in order

Numbered tasks wait in a first-in first-out queue. The front one is
polled; one that has to wait goes to the back, so every waiting task is
polled before any is polled twice. Tasks finish in any order, but results
are **delivered in order of their numbers**: one that comes early is kept
until its turn.

A search for the next result gives way after two tasks had to wait, or
after one if there is no other, so that a queue does not keep its driver
from other work (`Queue.patience`).
-/

namespace DynValue.Schedule

/-- **Tasks under way, and results kept for their turn.** -/
structure Queue (φ τ α : Type) where
  /-- Waiting tasks with their numbers, the front first. -/
  waiting : List (Nat × τ)
  /-- Outcomes that came before their turn, with their numbers. -/
  early : List (Nat × Except φ α)
  /-- The number of the next result to deliver. -/
  next : Nat

/-- What polling for one finished task came to. -/
inductive Sweep (φ τ α : Type) where
  /-- A task finished; the others wait. -/
  | finished (number : Nat) (outcome : Except φ α) (waiting : List (Nat × τ))
  /-- Enough tasks had to wait. -/
  | waits (waiting : List (Nat × τ))
  /-- There is no task. -/
  | idle

/-- What looking for the next result came to. -/
inductive Delivery (φ τ α : Type) where
  /-- The next result, and the queue without it. -/
  | item (outcome : Except φ α) (queue : Queue φ τ α)
  /-- It is not there yet. -/
  | waits (queue : Queue φ τ α)
  /-- There is none: no task is left. -/
  | drained

namespace Queue

variable {ε φ τ α : Type}

/-- The queue without tasks. -/
def empty : Queue φ τ α := ⟨[], [], 0⟩

/-- The number of tasks that are begun and not delivered. -/
def size (q : Queue φ τ α) : Nat := q.waiting.length + q.early.length

/-- The queue with one more task at the back. -/
def push (q : Queue φ τ α) (number : Nat) (task : τ) : Queue φ τ α :=
  { q with waiting := q.waiting ++ [(number, task)] }

/-- The queue of tasks numbered in order. -/
def ofList (tasks : List τ) : Queue φ τ α :=
  ⟨tasks.zipIdx.map fun t => (t.2, t.1), [], 0⟩

@[simp] theorem size_empty : (empty : Queue φ τ α).size = 0 := rfl

@[simp] theorem size_push (q : Queue φ τ α) (number : Nat) (task : τ) :
    (q.push number task).size = q.size + 1 := by
  simp only [size, push, List.length_append, List.length_singleton]
  omega

@[simp] theorem size_ofList (tasks : List τ) :
    (ofList tasks : Queue φ τ α).size = tasks.length := by
  simp [size, ofList]

/-- How many tasks may have to wait before a search gives way. -/
def patience (waiting : List (Nat × τ)) : Nat := min 2 waiting.length

/-- **Polls the front task until one finishes**, or until as many as given
had to wait. `held` is what is held outside the waiting tasks. -/
def sweep (kind : TaskKind ε φ τ α) (held : RefSet) :
    Nat → List (Nat × τ) → Logged ε (Sweep φ τ α)
  | _, [] => pure .idle
  | 0, waiting => pure (.waits waiting)
  | n + 1, (number, task) :: others => do
    match ← kind.poll (RefSet.union held (kind.heldByTasks others)) task with
    | .ready outcome => pure (.finished number outcome others)
    | .pending task' => sweep kind held n (others ++ [(number, task')])

/-- What the outcomes that came early hold. -/
def heldByEarly (kind : TaskKind ε φ τ α) (q : Queue φ τ α) : RefSet :=
  RefSet.unionOf (fun r => kind.heldByOutcome r.2) q.early

/-- What a queue holds. -/
def holds (kind : TaskKind ε φ τ α) (q : Queue φ τ α) : RefSet :=
  RefSet.union (kind.heldByTasks q.waiting) (q.heldByEarly kind)

/-- The kept outcome whose turn it is, and the queue without it. -/
def takeEarly? (q : Queue φ τ α) : Option (Except φ α × Queue φ τ α) :=
  match q.early.find? fun r => r.1 == q.next with
  | some r =>
    some (r.2, { q with
      early := q.early.filter fun r' => r'.1 != q.next
      next := q.next + 1 })
  | none => none

/-- **Polls until the next result in order finishes.** Every round but the
last finishes a task, so one more round than there are tasks is enough. -/
def search (kind : TaskKind ε φ τ α) (held : RefSet) :
    Nat → Queue φ τ α → Logged ε (Delivery φ τ α)
  | 0, q => pure (.waits q)
  | n + 1, q => do
    let outside := RefSet.union held (q.heldByEarly kind)
    match ← sweep kind outside (patience q.waiting) q.waiting with
    | .finished number outcome waiting =>
      if number = q.next then
        pure (.item outcome { q with waiting := waiting, next := q.next + 1 })
      else
        search kind held n
          { q with waiting := waiting, early := (number, outcome) :: q.early }
    | .waits waiting => pure (.waits { q with waiting := waiting })
    | .idle => pure .drained

/-- **Looks for the next result**: among those kept, then by polling. -/
def deliver (kind : TaskKind ε φ τ α) (held : RefSet) (q : Queue φ τ α) :
    Logged ε (Delivery φ τ α) :=
  match q.takeEarly? with
  | some (outcome, q') => pure (.item outcome q')
  | none => q.search kind held (q.waiting.length + 1)

/-- What is reported when a queue is dropped. -/
def dropped (kind : TaskKind ε φ τ α) (q : Queue φ τ α) : List ε :=
  kind.dropAll q.waiting

end Queue

end DynValue.Schedule
