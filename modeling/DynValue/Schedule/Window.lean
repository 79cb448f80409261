import DynValue.Schedule.Queue

/-!
# A window over a long run of tasks

The tasks of a run are begun in order and as late as possible: before each
result is looked for, tasks are begun until a fixed number of them, the
**width**, is under way or kept. So of the tasks behind the last delivered
result at most that many were ever begun, however long the run.

Results are gathered in order. The first failure delivered ends the run,
and what is still under way is dropped.
-/

namespace DynValue.Schedule

/-- **A run of tasks under way.** -/
structure Window (φ τ α : Type) where
  /-- The tasks begun and not delivered. -/
  queue : Queue φ τ α
  /-- How many tasks were begun. -/
  begun : Nat
  /-- The results delivered, in order. -/
  delivered : Array α

namespace Window

variable {ε φ τ α : Type}

/-- The run at its start. -/
def start : Window φ τ α := ⟨.empty, 0, #[]⟩

/-- The run of tasks that are all begun already. -/
def ofList (tasks : List τ) : Window φ τ α := ⟨.ofList tasks, tasks.length, #[]⟩

/-- Begins as many tasks as there is room for. `supply` gives each task by
its number, and nothing past the last. -/
def begin (supply : Nat → Option τ) : Nat → Window φ τ α → Window φ τ α
  | 0, w => w
  | room + 1, w =>
    match supply w.begun with
    | some task =>
      begin supply room
        { w with queue := w.queue.push w.begun task, begun := w.begun + 1 }
    | none => w

/-- **Fills the window** up to its width. -/
def refill (width : Nat) (supply : Nat → Option τ) (w : Window φ τ α) : Window φ τ α :=
  begin supply (width - w.queue.size) w

/-- What the results delivered hold. -/
def heldByDelivered (kind : TaskKind ε φ τ α) (w : Window φ τ α) : RefSet :=
  fun r => w.delivered.any fun a => kind.resultHolds a r

/-- What a run holds. -/
def holds (kind : TaskKind ε φ τ α) (w : Window φ τ α) : RefSet :=
  RefSet.union (w.queue.holds kind) (w.heldByDelivered kind)

/-- **Delivers results until one has to be waited for**, one fails, or none
is left. Each step but the last delivers a result, so one more step than
there are results to come is enough. -/
def run (kind : TaskKind ε φ τ α) (width : Nat) (supply : Nat → Option τ) (held : RefSet) :
    Nat → Window φ τ α → Logged ε (Poll (Window φ τ α) (Except φ (Array α)))
  | 0, w => pure (.pending w)
  | n + 1, w => do
    let w := w.refill width supply
    match ← w.queue.deliver kind (RefSet.union held (w.heldByDelivered kind)) with
    | .item (.ok a) queue =>
      run kind width supply held n
        { w with queue := queue, delivered := w.delivered.push a }
    | .item (.error e) queue => do
      Logged.tell (queue.dropped kind)
      pure (.ready (.error e))
    | .waits queue => pure (.pending { w with queue := queue })
    | .drained => pure (.ready (.ok w.delivered))

/-- What is reported when a run is dropped. -/
def dropped (kind : TaskKind ε φ τ α) (w : Window φ τ α) : List ε :=
  w.queue.dropped kind

end Window

end DynValue.Schedule
