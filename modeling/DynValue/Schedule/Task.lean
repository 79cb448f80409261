import DynValue.Logged
import DynValue.Ref

/-!
# Tasks

Work that has to wait is done by being polled. A poll either finishes a
task, or leaves a state from which to go on and asks to be polled again.
A task that finished is not polled any more, and one that nobody waits
for is dropped.

The schedulers in this folder drive many tasks at once and know nothing of
what they do. `TaskKind` is what they need: how to poll, what a task and
a result keep alive while they wait, and what there is to report when a
task is dropped. A poll is told which references the surroundings hold,
since that decides which weak references are still good.
-/

namespace DynValue.Schedule

open DynValue

/-- **The outcome of one poll.** -/
inductive Poll (σ α : Type) where
  /-- Finished, with a result. -/
  | ready (a : α)
  /-- To be polled again, from a state. -/
  | pending (s : σ)
  deriving DecidableEq, Repr

/-- **A kind of task**, with states `τ`, results `α`, failures `φ` and
events `ε`. -/
structure TaskKind (ε φ τ α : Type) where
  /-- One poll, given what the surroundings hold. -/
  poll : RefSet → τ → Logged ε (Poll τ (Except φ α))
  /-- What a waiting task holds. -/
  holds : τ → RefSet
  /-- What a result holds. -/
  resultHolds : α → RefSet
  /-- What is reported when a task is dropped. -/
  dropped : τ → List ε

namespace TaskKind

variable {ε φ τ α : Type}

/-- What waiting tasks hold together. -/
def heldByTasks (kind : TaskKind ε φ τ α) (tasks : List (Nat × τ)) : RefSet :=
  RefSet.unionOf (fun t => kind.holds t.2) tasks

/-- What an outcome holds: a failure holds nothing. -/
def heldByOutcome (kind : TaskKind ε φ τ α) : Except φ α → RefSet
  | .ok a => kind.resultHolds a
  | .error _ => RefSet.none

/-- What is reported when tasks are dropped, one after the other. -/
def dropAll (kind : TaskKind ε φ τ α) (tasks : List (Nat × τ)) : List ε :=
  tasks.flatMap fun t => kind.dropped t.2

end TaskKind

end DynValue.Schedule
