import DynValue.Proofs.Schedule.Moves
import Mathlib.Data.List.Forall2

/-!
# Tasks that cannot be told apart

Two tasks, perhaps of different kinds, are **bisimilar** if they are polled to the
same from here on, whatever is held around the one or the other: both finish with
the same outcome, or both have to wait in states that are bisimilar again. As with
the ways to fail, this is the greatest such relation, so any relation that polls keep
shows two tasks to be bisimilar.

A scheduler cannot tell bisimilar tasks apart either. Its state is in step with that
of another scheduler whose tasks are bisimilar to its own, one by one, and so are the
states after a poll (`Window.run_bisimilar`, `Join.poll_bisimilar`).
-/

namespace DynValue.Schedule

/-- Two polls come to the same, with related states. -/
inductive Poll.Alike {σ σ' β : Type} (states : σ → σ' → Prop) : Poll σ β → Poll σ' β → Prop
  | ready (b : β) : Alike states (.ready b) (.ready b)
  | pending {s : σ} {s' : σ'} (later : states s s') : Alike states (.pending s) (.pending s')

theorem Poll.Alike.mono {σ σ' β : Type} {states states' : σ → σ' → Prop} {p : Poll σ β}
    {p' : Poll σ' β} (h : p.Alike states p') (le : ∀ s s', states s s' → states' s s') :
    p.Alike states' p' := by
  cases h with
  | ready b => exact .ready b
  | pending later => exact .pending (le _ _ later)

variable {ε φ τ τ' α : Type} {kind : TaskKind ε φ τ α} {kind' : TaskKind ε φ τ' α}

namespace TaskKind

/-- **Two tasks are bisimilar**: polls keep some relation in which they are. -/
def Bisimilar (kind : TaskKind ε φ τ α) (kind' : TaskKind ε φ τ' α) (t : τ) (t' : τ') : Prop :=
  ∃ states : τ → τ' → Prop, states t t' ∧ ∀ t t', states t t' → ∀ R R',
    (kind.poll R t).value.Alike states (kind'.poll R' t').value

namespace Bisimilar

variable {t : τ} {t' : τ'}

/-- What one poll of each comes to. -/
theorem polled (h : kind.Bisimilar kind' t t') (R R' : RefSet) :
    (kind.poll R t).value.Alike (kind.Bisimilar kind') (kind'.poll R' t').value := by
  obtain ⟨states, here, keeps⟩ := h
  exact (keeps t t' here R R').mono fun s s' later => ⟨states, later, keeps⟩

/-- **It is enough to look at one poll of each.** -/
theorem intro (polled : ∀ R R',
    (kind.poll R t).value.Alike (kind.Bisimilar kind') (kind'.poll R' t').value) :
    kind.Bisimilar kind' t t' := by
  refine ⟨fun t t' => ∀ R R',
    (kind.poll R t).value.Alike (kind.Bisimilar kind') (kind'.poll R' t').value, polled, ?_⟩
  exact fun t t' h R R' => (h R R').mono fun s s' later => later.polled

/-- Tasks that are polled to the same as bisimilar ones are bisimilar. -/
theorem of_same_poll {s : τ} {s' : τ'} (h : kind.Bisimilar kind' t t')
    (left : ∀ R, (kind.poll R s).value = (kind.poll R t).value)
    (right : ∀ R, (kind'.poll R s').value = (kind'.poll R t').value) :
    kind.Bisimilar kind' s s' :=
  intro fun R R' => by
    rw [left, right]
    exact h.polled R R'

end Bisimilar

end TaskKind

/-! ## Queues -/

/-- Two waiting tasks of one number that are bisimilar. -/
def Queue.SameTask (kind : TaskKind ε φ τ α) (kind' : TaskKind ε φ τ' α) (t : Nat × τ)
    (t' : Nat × τ') : Prop :=
  t.1 = t'.1 ∧ kind.Bisimilar kind' t.2 t'.2

/-- **Two queues are in step**: their tasks are bisimilar, one by one. -/
structure Queue.Bisimilar (kind : TaskKind ε φ τ α) (kind' : TaskKind ε φ τ' α)
    (q : Queue φ τ α) (q' : Queue φ τ' α) : Prop where
  waiting : List.Forall₂ (SameTask kind kind') q.waiting q'.waiting
  early : q.early = q'.early
  next : q.next = q'.next

/-- Two sweeps end alike. -/
inductive Sweep.Bisimilar (kind : TaskKind ε φ τ α) (kind' : TaskKind ε φ τ' α) :
    Sweep φ τ α → Sweep φ τ' α → Prop
  | finished (number : Nat) (outcome : Except φ α) {waiting : List (Nat × τ)}
      {waiting' : List (Nat × τ')}
      (rest : List.Forall₂ (Queue.SameTask kind kind') waiting waiting') :
      Bisimilar kind kind' (.finished number outcome waiting) (.finished number outcome waiting')
  | waits {waiting : List (Nat × τ)} {waiting' : List (Nat × τ')}
      (rest : List.Forall₂ (Queue.SameTask kind kind') waiting waiting') :
      Bisimilar kind kind' (.waits waiting) (.waits waiting')
  | idle : Bisimilar kind kind' .idle .idle

/-- Two searches for the next result end alike. -/
inductive Delivery.Bisimilar (kind : TaskKind ε φ τ α) (kind' : TaskKind ε φ τ' α) :
    Delivery φ τ α → Delivery φ τ' α → Prop
  | item (outcome : Except φ α) {q : Queue φ τ α} {q' : Queue φ τ' α}
      (rest : q.Bisimilar kind kind' q') :
      Bisimilar kind kind' (.item outcome q) (.item outcome q')
  | waits {q : Queue φ τ α} {q' : Queue φ τ' α} (rest : q.Bisimilar kind kind' q') :
      Bisimilar kind kind' (.waits q) (.waits q')
  | drained : Bisimilar kind kind' .drained .drained

namespace Queue

variable {q : Queue φ τ α} {q' : Queue φ τ' α}

theorem Bisimilar.push {n : Nat} {t : τ} {t' : τ'} (h : q.Bisimilar kind kind' q')
    (ht : kind.Bisimilar kind' t t') : (q.push n t).Bisimilar kind kind' (q'.push n t') :=
  ⟨List.rel_append h.waiting (.cons ⟨rfl, ht⟩ .nil), h.early, h.next⟩

theorem Bisimilar.size_eq (h : q.Bisimilar kind kind' q') : q.size = q'.size := by
  rw [size, size, h.waiting.length_eq, h.early]

theorem sweep_bisimilar {waiting : List (Nat × τ)} {waiting' : List (Nat × τ')}
    (h : List.Forall₂ (SameTask kind kind') waiting waiting') (R R' : RefSet) (n : Nat) :
    (sweep kind R n waiting).value.Bisimilar kind kind' (sweep kind' R' n waiting').value := by
  induction n generalizing waiting waiting' with
  | zero =>
    cases h with
    | nil => exact .idle
    | cons first rest => exact .waits (.cons first rest)
  | succ n ih =>
    cases h with
    | nil => exact .idle
    | @cons front front' others others' first rest =>
      obtain ⟨number, t⟩ := front
      obtain ⟨number', t'⟩ := front'
      obtain ⟨rfl, bisimilar⟩ : number = number' ∧ kind.Bisimilar kind' t t' := first
      have polled := bisimilar.polled (RefSet.union R (kind.heldByTasks others))
        (RefSet.union R' (kind'.heldByTasks others'))
      generalize hx : (kind.poll _ t).value = x at polled
      generalize hy : (kind'.poll _ t').value = y at polled
      cases polled with
      | ready o =>
        rw [sweep_cons_ready hx, sweep_cons_ready hy]
        exact .finished number o rest
      | pending later =>
        rw [sweep_cons_pending hx, sweep_cons_pending hy]
        exact ih (List.rel_append rest (.cons ⟨rfl, later⟩ .nil))

theorem search_bisimilar (h : q.Bisimilar kind kind' q') (R R' : RefSet) (n : Nat) :
    (q.search kind R n).value.Bisimilar kind kind' (q'.search kind' R' n).value := by
  induction n generalizing q q' with
  | zero => exact .waits h
  | succ n ih =>
    have same : patience q'.waiting = patience q.waiting := by
      rw [patience, patience, h.waiting.length_eq]
    have swept := sweep_bisimilar h.waiting (RefSet.union R (q.heldByEarly kind))
      (RefSet.union R' (q'.heldByEarly kind')) (patience q.waiting)
    rw [search, search, Logged.value_bind, Logged.value_bind, same]
    generalize (sweep kind _ _ q.waiting).value = x at swept
    generalize (sweep kind' _ _ q'.waiting).value = y at swept
    cases swept with
    | finished number o rest =>
      by_cases turn : number = q.next
      · simp only [← h.next, turn, if_true]
        exact .item o ⟨rest, h.early, rfl⟩
      · simp only [← h.next, turn, if_false]
        exact ih ⟨rest, congrArg ((number, o) :: ·) h.early, rfl⟩
    | waits rest => exact .waits ⟨rest, h.early, h.next⟩
    | idle => exact .drained

theorem deliver_bisimilar (h : q.Bisimilar kind kind' q') (R R' : RefSet) :
    (q.deliver kind R).value.Bisimilar kind kind' (q'.deliver kind' R').value := by
  have same : q'.early.find? (fun r => r.1 == q'.next) = q.early.find? fun r => r.1 == q.next := by
    rw [h.early, h.next]
  unfold deliver takeEarly?
  rw [same]
  cases q.early.find? fun r => r.1 == q.next with
  | some r =>
    refine .item r.2 ⟨h.waiting, ?_, ?_⟩
    · rw [h.early, h.next]
    · rw [h.next]
  | none =>
    dsimp only
    rw [h.waiting.length_eq]
    exact search_bisimilar h R R' _

end Queue

/-! ## Windows -/

namespace Window

variable {width : Nat} {supply : Nat → Option τ} {supply' : Nat → Option τ'}
  {w : Window φ τ α} {w' : Window φ τ' α}

/-- **Two runs are in step.** -/
structure Bisimilar (kind : TaskKind ε φ τ α) (kind' : TaskKind ε φ τ' α)
    (w : Window φ τ α) (w' : Window φ τ' α) : Prop where
  queue : w.queue.Bisimilar kind kind' w'.queue
  begun : w.begun = w'.begun
  delivered : w.delivered = w'.delivered

/-- Two runs have bisimilar tasks to come. -/
def SameSupply (kind : TaskKind ε φ τ α) (kind' : TaskKind ε φ τ' α)
    (supply : Nat → Option τ) (supply' : Nat → Option τ') : Prop :=
  ∀ n, Option.Rel (kind.Bisimilar kind') (supply n) (supply' n)

theorem start_bisimilar (kind : TaskKind ε φ τ α) (kind' : TaskKind ε φ τ' α) :
    (start : Window φ τ α).Bisimilar kind kind' start :=
  ⟨⟨.nil, rfl, rfl⟩, rfl, rfl⟩

theorem begin_bisimilar (h : w.Bisimilar kind kind' w')
    (supplies : SameSupply kind kind' supply supply') (room : Nat) :
    (begin supply room w).Bisimilar kind kind' (begin supply' room w') := by
  induction room generalizing w w' with
  | zero => exact h
  | succ room ih =>
    have next := supplies w.begun
    unfold begin
    rw [← h.begun]
    generalize supply w.begun = task at next
    generalize supply' w.begun = task' at next
    cases next with
    | none => exact h
    | some bisimilar =>
      exact ih ⟨h.queue.push bisimilar, rfl, h.delivered⟩

/-- **A poll of a run** leaves runs that are in step, or ends both alike. -/
theorem run_bisimilar (h : w.Bisimilar kind kind' w')
    (supplies : SameSupply kind kind' supply supply') (R R' : RefSet) (n : Nat) :
    (w.run kind width supply R n).value.Alike (Bisimilar kind kind')
      (w'.run kind' width supply' R' n).value := by
  induction n generalizing w w' with
  | zero => exact .pending h
  | succ n ih =>
    have filled : (w.refill width supply).Bisimilar kind kind' (w'.refill width supply') := by
      unfold refill
      rw [h.queue.size_eq]
      exact begin_bisimilar h supplies _
    rw [run, run]
    generalize w.refill width supply = v at filled
    generalize w'.refill width supply' = v' at filled
    have delivery := Queue.deliver_bisimilar filled.queue
      (RefSet.union R (v.heldByDelivered kind)) (RefSet.union R' (v'.heldByDelivered kind'))
    show Poll.Alike _ (v.queue.deliver kind _ >>= _).value (v'.queue.deliver kind' _ >>= _).value
    rw [Logged.value_bind, Logged.value_bind]
    generalize (v.queue.deliver kind _).value = x at delivery
    generalize (v'.queue.deliver kind' _).value = y at delivery
    cases delivery with
    | item outcome rest =>
      cases outcome with
      | ok a => exact ih ⟨rest, filled.begun, congrArg (·.push a) filled.delivered⟩
      | error e => exact .ready (Except.error e)
    | waits rest => exact .pending ⟨rest, filled.begun, filled.delivered⟩
    | drained =>
      show Poll.Alike _ (Poll.ready (Except.ok v.delivered)) (Poll.ready (Except.ok v'.delivered))
      rw [filled.delivered]
      exact .ready _

end Window

/-! ## Joins -/

/-- Two slots are in step: both are done with the same, or both run. -/
inductive Slot.Bisimilar (kind : TaskKind ε φ τ α) (kind' : TaskKind ε φ τ' α) :
    Slot τ α → Slot τ' α → Prop
  | running {t : τ} {t' : τ'} (bisimilar : kind.Bisimilar kind' t t') :
    Bisimilar kind kind' (.running t) (.running t')
  | done (a : α) : Bisimilar kind kind' (.done a) (.done a)

/-- Two rounds end alike. -/
inductive Slot.SameRound (kind : TaskKind ε φ τ α) (kind' : TaskKind ε φ τ' α) :
    Except φ (List (Slot τ α)) → Except φ (List (Slot τ' α)) → Prop
  | ok {slots : List (Slot τ α)} {slots' : List (Slot τ' α)}
      (rest : List.Forall₂ (Bisimilar kind kind') slots slots') :
      SameRound kind kind' (.ok slots) (.ok slots')
  | error (e : φ) : SameRound kind kind' (.error e) (.error e)

namespace Slot

theorem round_bisimilar {passed slots : List (Slot τ α)} {passed' slots' : List (Slot τ' α)}
    (before : List.Forall₂ (Bisimilar kind kind') passed passed')
    (h : List.Forall₂ (Bisimilar kind kind') slots slots') (R R' : RefSet) :
    SameRound kind kind' (round kind R passed slots).value
      (round kind' R' passed' slots').value := by
  induction h generalizing passed passed' with
  | nil => exact .ok (List.rel_reverse before)
  | @cons slot slot' slots slots' first rest ih =>
    cases first with
    | done a => exact ih (.cons (.done a) before)
    | @running t t' bisimilar =>
      have polled := bisimilar.polled
        (RefSet.union R (RefSet.union (allHold kind passed) (allHold kind slots)))
        (RefSet.union R' (RefSet.union (allHold kind' passed') (allHold kind' slots')))
      rw [round, round, Logged.value_bind, Logged.value_bind]
      generalize (kind.poll _ t).value = x at polled
      generalize (kind'.poll _ t').value = y at polled
      cases polled with
      | ready o =>
        cases o with
        | ok a => exact ih (.cons (.done a) before)
        | error e => exact .error e
      | pending later => exact ih (.cons (.running later) before)

theorem results_eq {slots : List (Slot τ α)} {slots' : List (Slot τ' α)}
    (h : List.Forall₂ (Bisimilar kind kind') slots slots') :
    slots.mapM result? = slots'.mapM result? := by
  induction h with
  | nil => rfl
  | cons first rest ih =>
    rw [List.mapM_cons, List.mapM_cons, ih]
    cases first <;> rfl

end Slot

namespace Join

variable {join : Join φ τ α} {join' : Join φ τ' α}

/-- **Two joins are in step.** -/
inductive Bisimilar (kind : TaskKind ε φ τ α) (kind' : TaskKind ε φ τ' α) :
    Join φ τ α → Join φ τ' α → Prop
  | rounds {slots : List (Slot τ α)} {slots' : List (Slot τ' α)}
      (h : List.Forall₂ (Slot.Bisimilar kind kind') slots slots') :
      Bisimilar kind kind' (.rounds slots) (.rounds slots')
  | run {w : Window φ τ α} {w' : Window φ τ' α} (h : w.Bisimilar kind kind' w') :
      Bisimilar kind kind' (.run w) (.run w')

theorem numbered_bisimilar {tasks : List τ} {tasks' : List τ'}
    (h : List.Forall₂ (kind.Bisimilar kind') tasks tasks') (n : Nat) :
    List.Forall₂ (Queue.SameTask kind kind') ((tasks.zipIdx n).map fun t => (t.2, t.1))
      ((tasks'.zipIdx n).map fun t => (t.2, t.1)) := by
  induction h generalizing n with
  | nil => exact .nil
  | cons first rest ih => exact .cons ⟨rfl, first⟩ (ih (n + 1))

theorem ofList_bisimilar {tasks : List τ} {tasks' : List τ'}
    (h : List.Forall₂ (kind.Bisimilar kind') tasks tasks') :
    (ofList tasks : Join φ τ α).Bisimilar kind kind' (ofList tasks') := by
  unfold ofList
  rw [h.length_eq]
  split
  · exact .rounds (List.rel_map (fun _ _ h => .running h) h)
  · exact .run ⟨⟨numbered_bisimilar h 0, rfl, rfl⟩, h.length_eq, rfl⟩

/-- **A poll of a join** leaves joins that are in step, or ends both alike. -/
theorem poll_bisimilar (h : join.Bisimilar kind kind' join') (R R' : RefSet) :
    (join.poll kind R).value.Alike (Bisimilar kind kind') (join'.poll kind' R').value := by
  cases h with
  | @rounds slots slots' h =>
    have round := Slot.round_bisimilar .nil h R R'
    rw [poll, poll, Logged.value_bind, Logged.value_bind]
    generalize (Slot.round kind R [] slots).value = x at round
    generalize (Slot.round kind' R' [] slots').value = y at round
    cases round with
    | @ok slots slots' rest =>
      dsimp only
      rw [← Slot.results_eq rest]
      cases slots.mapM Slot.result? with
      | some results => exact .ready (Except.ok results)
      | none => exact .pending (.rounds rest)
    | error e => exact .ready (Except.error e)
  | @run w w' h =>
    have run : Poll.Alike (Window.Bisimilar kind kind')
        (w.run kind 0 (fun _ => none) R (w.queue.size + 1)).value
        (w'.run kind' 0 (fun _ => none) R' (w.queue.size + 1)).value :=
      Window.run_bisimilar h (fun _ => .none) R R' _
    rw [poll, poll, Logged.value_bind, Logged.value_bind, ← h.queue.size_eq]
    generalize (w.run kind 0 (fun _ => none) R _).value = x at run
    generalize (w'.run kind' 0 (fun _ => none) R' _).value = y at run
    cases run with
    | ready o => cases o <;> exact .ready _
    | pending later => exact .pending (.run later)

end Join

end DynValue.Schedule
