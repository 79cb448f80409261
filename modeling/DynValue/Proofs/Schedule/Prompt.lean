import DynValue.Proofs.Schedule.Moves

/-!
# Tasks that are ready at once

A task that is ready whenever it is polled, and reports nothing when it is dropped, is
as good as a computation with a log. Waiting for all of some such tasks is then no
matter of scheduling: few or many, they are gone through in their order up to the
first failure, and what is reported is what those gone through report
(`Join.poll_of_prompt`). Nothing is asked of those behind (`inTurn_of_error`).
-/

namespace DynValue.Schedule

variable {ε φ τ α β : Type} {kind : TaskKind ε φ τ α} {task : β → τ}
  {answer : β → Logged ε (Except φ α)} {xs : List β} {R : RefSet}

/-! ## Going through a list -/

/-- **The answers of a list in turn**, up to the first failure. -/
def inTurn (answer : β → Logged ε (Except φ α)) : List β → Logged ε (Except φ (List α))
  | [] => pure (.ok [])
  | x :: xs => do
    match ← answer x with
    | .error e => pure (.error e)
    | .ok a => do
      let rest ← inTurn answer xs
      pure (rest.map (a :: ·))

theorem inTurn_cons_error {x : β} {e : φ} (failed : (answer x).value = .error e) :
    inTurn answer (x :: xs) = ⟨(answer x).log, .error e⟩ := by
  refine Logged.ext_parts ?_ ?_
  · rw [inTurn, Logged.log_bind, failed]
    exact List.append_nil _
  · rw [inTurn, Logged.value_bind, failed]
    rfl

theorem inTurn_cons_ok {x : β} {a : α} (succeeds : (answer x).value = .ok a) :
    inTurn answer (x :: xs)
      = ⟨(answer x).log ++ (inTurn answer xs).log, (inTurn answer xs).value.map (a :: ·)⟩ := by
  refine Logged.ext_parts ?_ ?_
  · rw [inTurn, Logged.log_bind, succeeds]
    show _ ++ ((inTurn answer xs).log ++ []) = _
    rw [List.append_nil]
  · rw [inTurn, Logged.value_bind, succeeds]
    rfl

theorem inTurn_value (answer : β → Logged ε (Except φ α)) (xs : List β) :
    (inTurn answer xs).value = xs.mapM fun x => (answer x).value := by
  induction xs with
  | nil => rfl
  | cons x xs ih =>
    rw [List.mapM_cons]
    cases outcome : (answer x).value with
    | error e =>
      rw [inTurn_cons_error outcome]
      rfl
    | ok a =>
      rw [inTurn_cons_ok outcome, ih]
      show Except.map _ (xs.mapM _) = (xs.mapM _ >>= _)
      cases xs.mapM fun x => (answer x).value <;> rfl

/-- Answers that report nothing, in turn, report nothing. -/
theorem inTurn_silent (silent : ∀ x ∈ xs, (answer x).log = []) : (inTurn answer xs).log = [] := by
  induction xs with
  | nil => rfl
  | cons x xs ih =>
    obtain ⟨here, behind⟩ := List.forall_mem_cons.1 silent
    cases outcome : (answer x).value with
    | error e => rw [inTurn_cons_error outcome, here]
    | ok a => rw [inTurn_cons_ok outcome, here, List.nil_append, ih behind]

/-- **The first failure is the last answer**: of those behind nothing is reported. -/
theorem inTurn_of_error {before after : List β} {x : β} {e : φ}
    (good : ∀ y ∈ before, ∃ a, (answer y).value = .ok a) (failed : (answer x).value = .error e) :
    (inTurn answer (before ++ x :: after)).log
      = before.flatMap (fun y => (answer y).log) ++ (answer x).log := by
  induction before with
  | nil =>
    rw [List.nil_append, inTurn_cons_error failed]
    rfl
  | cons y before ih =>
    obtain ⟨⟨a, succeeds⟩, rest⟩ := List.forall_mem_cons.1 good
    rw [List.cons_append, inTurn_cons_ok succeeds, List.flatMap_cons, List.append_assoc, ← ih rest]

/-! ## Tasks -/

/-- **A task is ready at once** with an answer, whatever is held, and reports nothing
when it is dropped. -/
structure TaskKind.Prompt (kind : TaskKind ε φ τ α) (t : τ) (answer : Logged ε (Except φ α)) :
    Prop where
  polled : ∀ R, kind.poll R t = ⟨answer.log, .ready answer.value⟩
  dropped : kind.dropped t = []

/-- **A round** of such tasks goes through those that are left. -/
theorem Slot.round_of_prompt (prompt : ∀ x ∈ xs, kind.Prompt (task x) (answer x))
    (passed : List (Slot τ α)) (quiet : ∀ s ∈ passed, s.dropped kind = []) :
    round kind R passed (xs.map fun x => .running (task x))
      = ⟨(inTurn answer xs).log,
        (inTurn answer xs).value.map fun as => passed.reverse ++ as.map .done⟩ := by
  induction xs generalizing passed with
  | nil =>
    rw [List.map_nil, round]
    show Logged.mk _ _ = Logged.mk _ (Except.ok (passed.reverse ++ []))
    rw [List.append_nil]
    rfl
  | cons x xs ih =>
    obtain ⟨here, behind⟩ := List.forall_mem_cons.1 prompt
    rw [List.map_cons, round, here.polled, Logged.mk_bind]
    cases outcome : (answer x).value with
    | error e =>
      have silent : dropAll kind passed.reverse
          ++ dropAll kind (xs.map fun x => .running (task x)) = [] := by
        rw [List.append_eq_nil_iff]
        refine ⟨List.flatMap_eq_nil_iff.2 fun s mem => quiet s (List.mem_reverse.1 mem),
          List.flatMap_eq_nil_iff.2 fun s mem => ?_⟩
        obtain ⟨y, left, rfl⟩ := List.mem_map.1 mem
        exact (behind y left).dropped
      rw [inTurn_cons_error outcome]
      dsimp only
      rw [silent]
      exact Logged.ext_parts (List.append_nil _) rfl
    | ok a =>
      have later : ∀ s ∈ (.done a :: passed : List (Slot τ α)), s.dropped kind = [] :=
        List.forall_mem_cons.2 ⟨rfl, quiet⟩
      rw [inTurn_cons_ok outcome]
      dsimp only
      rw [ih behind _ later]
      refine Logged.ext_parts rfl ?_
      cases (inTurn answer xs).value with
      | error e => rfl
      | ok as =>
        show Except.ok ((.done a :: passed).reverse ++ as.map .done)
          = Except.ok (passed.reverse ++ .done a :: as.map .done)
        rw [List.reverse_cons, List.append_assoc]
        rfl

/-- Tasks that wait in order, from some number on. -/
def Queue.lineUp (task : β → τ) (start : Nat) (xs : List β) : Queue φ τ α :=
  ⟨(xs.zipIdx start).map fun x => (x.2, task x.1), [], start⟩

/-- **The front one** of such tasks is delivered. -/
theorem Queue.deliver_of_prompt {x : β} (prompt : kind.Prompt (task x) (answer x)) (start : Nat) :
    (lineUp task start (x :: xs)).deliver kind R
      = ⟨(answer x).log, .item (answer x).value (lineUp task (start + 1) xs)⟩ := by
  have swept : sweep kind (RefSet.union R ((lineUp task start (x :: xs)).heldByEarly kind))
      (patience (lineUp task start (x :: xs) : Queue φ τ α).waiting)
      (lineUp task start (x :: xs) : Queue φ τ α).waiting
      = ⟨(answer x).log, .finished start (answer x).value
          (lineUp task (start + 1) xs : Queue φ τ α).waiting⟩ := by
    have patient : patience (lineUp task start (x :: xs) : Queue φ τ α).waiting
        = min 1 xs.length + 1 := by
      rw [patience, lineUp, List.length_map, List.length_zipIdx, List.length_cons]
      omega
    rw [patient]
    show (kind.poll _ (task x) >>= _) = _
    rw [prompt.polled, Logged.mk_bind]
    exact Logged.ext_parts (List.append_nil _) rfl
  show (sweep kind _ _ _ >>= _) = _
  rw [swept, Logged.mk_bind]
  dsimp only
  rw [if_pos (show start = (lineUp task start (x :: xs) : Queue φ τ α).next from rfl)]
  exact Logged.ext_parts (List.append_nil _) rfl

/-- **A run** of such tasks goes through those that wait. -/
theorem Window.run_of_prompt (prompt : ∀ x ∈ xs, kind.Prompt (task x) (answer x))
    (start begun : Nat) (delivered : Array α) :
    (⟨.lineUp task start xs, begun, delivered⟩ : Window φ τ α).run kind 0 (fun _ => none) R
        (xs.length + 1)
      = ⟨(inTurn answer xs).log,
        .ready ((inTurn answer xs).value.map fun as => delivered ++ as.toArray)⟩ := by
  have nothing (w : Window φ τ α) : w.refill 0 (fun _ => none) = w := by
    rw [refill, Nat.zero_sub, begin]
  induction xs generalizing start delivered with
  | nil =>
    rw [List.length_nil, run, nothing]
    refine Logged.ext_parts rfl ?_
    show Poll.ready (Except.ok delivered) = Poll.ready (Except.ok (delivered ++ #[]))
    rw [Array.append_empty]
  | cons x xs ih =>
    obtain ⟨here, behind⟩ := List.forall_mem_cons.1 prompt
    rw [List.length_cons, run, nothing, Queue.deliver_of_prompt here, Logged.mk_bind]
    cases outcome : (answer x).value with
    | error e =>
      have silent : (Queue.lineUp task (start + 1) xs : Queue φ τ α).dropped kind = [] := by
        refine List.flatMap_eq_nil_iff.2 fun t mem => ?_
        obtain ⟨y, left, rfl⟩ := List.mem_map.1 mem
        exact (behind y.1 (List.fst_mem_of_mem_zipIdx left)).dropped
      rw [inTurn_cons_error outcome]
      dsimp only
      rw [silent]
      exact Logged.ext_parts (List.append_nil _) rfl
    | ok a =>
      rw [inTurn_cons_ok outcome]
      dsimp only
      rw [ih behind]
      refine Logged.ext_parts rfl ?_
      cases (inTurn answer xs).value with
      | error e => rfl
      | ok as =>
        show Poll.ready (Except.ok (delivered.push a ++ as.toArray))
          = Poll.ready (Except.ok (delivered ++ (a :: as).toArray))
        rw [List.toArray_cons a as, ← Array.append_assoc, Array.append_singleton]

/-- **Waiting for all of some tasks that are ready at once** goes through them in
their order, few or many. -/
theorem Join.poll_of_prompt (prompt : ∀ x ∈ xs, kind.Prompt (task x) (answer x)) :
    (Join.ofList (xs.map task) : Join φ τ α).poll kind R
      = ⟨(inTurn answer xs).log, .ready (inTurn answer xs).value⟩ := by
  unfold Join.ofList
  split
  · have round := Slot.round_of_prompt (R := R) prompt [] nofun
    rw [List.map_map, poll]
    show (Slot.round kind R [] (xs.map fun x => .running (task x)) >>= _) = _
    rw [round, Logged.mk_bind]
    cases (inTurn answer xs).value with
    | error e => exact Logged.ext_parts (List.append_nil _) rfl
    | ok as =>
      dsimp only [Except.map]
      rw [List.reverse_nil, List.nil_append, mapM_result?_done]
      exact Logged.ext_parts (List.append_nil _) rfl
  · have lined : (Window.ofList (xs.map task) : Window φ τ α)
        = ⟨.lineUp task 0 xs, xs.length, #[]⟩ := by
      rw [Window.ofList, Queue.ofList, Queue.lineUp, List.length_map, List.zipIdx_map,
        List.map_map]
      rfl
    have size : (Queue.lineUp task 0 xs : Queue φ τ α).size = xs.length := by
      rw [Queue.size, Queue.lineUp, List.length_map, List.length_zipIdx]
      rfl
    rw [poll, lined, size, Window.run_of_prompt prompt, Logged.mk_bind]
    cases (inTurn answer xs).value with
    | error e => exact Logged.ext_parts (List.append_nil _) rfl
    | ok as =>
      refine Logged.ext_parts (List.append_nil _) ?_
      show Poll.ready (Except.ok (#[] ++ as.toArray).toList) = _
      rw [Array.empty_append]

end DynValue.Schedule
