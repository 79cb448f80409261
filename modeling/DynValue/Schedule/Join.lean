import DynValue.Schedule.Window

/-!
# Waiting for all of some tasks

A few tasks are polled in rounds: each round polls every unfinished task
once, in order, and the first failure **met** ends it all, also when an
earlier task is still waiting. Many tasks are a run with a window as wide
as the run, where the first failure **in order** counts. The limit between
few and many is `Join.roundLimit`.
-/

namespace DynValue.Schedule

/-- One task of a round: under way, or finished. -/
inductive Slot (τ α : Type) where
  | running (task : τ)
  | done (a : α)

/-- **Tasks that are waited for together.** -/
inductive Join (φ τ α : Type) where
  /-- A few, polled in rounds. -/
  | rounds (slots : List (Slot τ α))
  /-- Many, delivered in order. -/
  | run (window : Window φ τ α)

namespace Slot

variable {ε φ τ α : Type}

/-- What a slot holds. -/
def holds (kind : TaskKind ε φ τ α) : Slot τ α → RefSet
  | running task => kind.holds task
  | done a => kind.resultHolds a

/-- What is reported when a slot is dropped. -/
def dropped (kind : TaskKind ε φ τ α) : Slot τ α → List ε
  | running task => kind.dropped task
  | done _ => []

/-- The result of a finished slot. -/
def result? : Slot τ α → Option α
  | running _ => none
  | done a => some a

/-- What slots hold together. -/
def allHold (kind : TaskKind ε φ τ α) (slots : List (Slot τ α)) : RefSet :=
  RefSet.unionOf (Slot.holds kind) slots

/-- What is reported when slots are dropped, one after the other. -/
def dropAll (kind : TaskKind ε φ τ α) (slots : List (Slot τ α)) : List ε :=
  slots.flatMap (Slot.dropped kind)

/-- **One round**: polls the unfinished slots in order. `passed` are the
slots already seen, the latest first. A failure drops all others. -/
def round (kind : TaskKind ε φ τ α) (held : RefSet) (passed : List (Slot τ α)) :
    List (Slot τ α) → Logged ε (Except φ (List (Slot τ α)))
  | [] => pure (.ok passed.reverse)
  | done a :: slots => round kind held (done a :: passed) slots
  | running task :: slots => do
    let others := RefSet.union (allHold kind passed) (allHold kind slots)
    match ← kind.poll (RefSet.union held others) task with
    | .pending task' => round kind held (running task' :: passed) slots
    | .ready (.ok a) => round kind held (done a :: passed) slots
    | .ready (.error e) => do
      Logged.tell (dropAll kind passed.reverse ++ dropAll kind slots)
      pure (.error e)

end Slot

namespace Join

variable {ε φ τ α : Type}

/-- How many tasks are still few. -/
def roundLimit : Nat := 30

/-- Waiting for all of some tasks. -/
def ofList (tasks : List τ) : Join φ τ α :=
  if tasks.length ≤ roundLimit then .rounds (tasks.map .running)
  else .run (.ofList tasks)

/-- What the tasks hold together. -/
def holds (kind : TaskKind ε φ τ α) : Join φ τ α → RefSet
  | rounds slots => Slot.allHold kind slots
  | run window => window.holds kind

/-- **One poll**: finished when every task is, or with the first failure. -/
def poll (kind : TaskKind ε φ τ α) (held : RefSet) :
    Join φ τ α → Logged ε (Poll (Join φ τ α) (Except φ (List α)))
  | rounds slots => do
    match ← Slot.round kind held [] slots with
    | .error e => pure (.ready (.error e))
    | .ok slots' =>
      match slots'.mapM Slot.result? with
      | some results => pure (.ready (.ok results))
      | none => pure (.pending (.rounds slots'))
  | run window => do
    match ← window.run kind 0 (fun _ => none) held (window.queue.size + 1) with
    | .ready (.ok results) => pure (.ready (.ok results.toList))
    | .ready (.error e) => pure (.ready (.error e))
    | .pending window' => pure (.pending (.run window'))

/-- What is reported when the tasks are dropped. -/
def dropped (kind : TaskKind ε φ τ α) : Join φ τ α → List ε
  | rounds slots => Slot.dropAll kind slots
  | run window => window.dropped kind

end Join

end DynValue.Schedule
