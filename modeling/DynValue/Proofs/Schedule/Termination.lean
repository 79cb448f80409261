import DynValue.Proofs.Schedule.Numbering
import DynValue.Proofs.Schedule.Conservation
import Mathlib.Algebra.Order.BigOperators.Group.List
import Mathlib.Algebra.Order.Group.Nat
import Mathlib.Order.Lattice.Nat

/-!
# Schedulers become ready

A poll that leaves a scheduler waiting had some task wait. So if no task waits for
ever, the scheduler does not either: the number of times that its tasks can still
have to wait gets smaller with each such poll (`Window.Bounded.run_pending`,
`Join.Bounded.poll_pending`).

Nothing is assumed of what tasks come to. It may depend on what is held elsewhere,
and this may be different at every poll; what counts is only how often a task can
be pending (`TaskKind.EndsWithin`).
-/

namespace DynValue.Schedule

variable {ε φ τ α : Type}

namespace TaskKind

/-- **A task is pending so often at most**, whatever is held elsewhere at each
poll. -/
def EndsWithin (kind : TaskKind ε φ τ α) : Nat → τ → Prop
  | 0, t => ∀ R t', (kind.poll R t).value ≠ .pending t'
  | n + 1, t => ∀ R t', (kind.poll R t).value = .pending t' → EndsWithin kind n t'

variable {kind : TaskKind ε φ τ α} {n m : Nat} {t t' : τ} {R : RefSet}

/-- It uses up one of these times when it is pending. -/
theorem EndsWithin.of_pending (h : kind.EndsWithin n t)
    (polled : (kind.poll R t).value = .pending t') : ∃ m, n = m + 1 ∧ kind.EndsWithin m t' := by
  cases n with
  | zero => exact absurd polled (h R t')
  | succ m => exact ⟨m, rfl, h R t' polled⟩

theorem EndsWithin.mono (h : kind.EndsWithin n t) (le : n ≤ m) : kind.EndsWithin m t := by
  induction m generalizing n t with
  | zero =>
    obtain rfl := Nat.le_zero.1 le
    exact h
  | succ m ih =>
    intro R t' polled
    obtain ⟨n, rfl, rest⟩ := h.of_pending polled
    exact ih rest (Nat.le_of_succ_le_succ le)

/-- A task that is left with less to wait for whenever it is pending. -/
theorem EndsWithin.of_polls
    (h : ∀ R t', (kind.poll R t).value = .pending t' → ∃ m < n, kind.EndsWithin m t') :
    kind.EndsWithin n t := by
  cases n with
  | zero =>
    intro R t' polled
    obtain ⟨m, less, -⟩ := h R t' polled
    exact Nat.not_lt_zero m less
  | succ n =>
    intro R t' polled
    obtain ⟨m, less, rest⟩ := h R t' polled
    exact rest.mono (Nat.le_of_lt_succ less)

/-- **What gets smaller whenever a task is pending** bounds how often it is. -/
theorem endsWithin_of_measure (P : τ → Prop) (weight : τ → Nat)
    (lighter : ∀ {t t' R}, P t → (kind.poll R t).value = .pending t' →
      P t' ∧ weight t' < weight t) (ht : P t) : kind.EndsWithin (weight t) t := by
  generalize hn : weight t = n
  induction n using Nat.strong_induction_on generalizing t with
  | _ n ih =>
    refine .of_polls fun R t' polled => ?_
    obtain ⟨kept, less⟩ := lighter ht polled
    exact ⟨_, hn ▸ less, ih _ (hn ▸ less) kept rfl⟩

/-! ## How often at most -/

/-- **How often a task can be pending**, if there is a bound. -/
noncomputable def most (kind : TaskKind ε φ τ α) (t : τ) : Nat := sInf {n | kind.EndsWithin n t}

theorem EndsWithin.most_le (h : kind.EndsWithin n t) : kind.most t ≤ n := Nat.sInf_le h

theorem EndsWithin.most (h : kind.EndsWithin n t) : kind.EndsWithin (kind.most t) t :=
  Nat.sInf_mem (s := {n | kind.EndsWithin n t}) ⟨n, h⟩

/-- It can be so less often once it was. -/
theorem EndsWithin.most_lt (h : kind.EndsWithin n t)
    (polled : (kind.poll R t).value = .pending t') : kind.most t' < kind.most t := by
  obtain ⟨m, same, rest⟩ := h.most.of_pending polled
  exact same ▸ Nat.lt_succ_of_le rest.most_le

/-! ## Many tasks -/

/-- All of some tasks become ready. -/
def EndAll (kind : TaskKind ε φ τ α) (tasks : List τ) : Prop :=
  ∀ t ∈ tasks, ∃ n, kind.EndsWithin n t

/-- How often they can be pending together. -/
noncomputable def mostAll (kind : TaskKind ε φ τ α) (tasks : List τ) : Nat :=
  (tasks.map kind.most).sum

variable {tasks tasks' before behind : List τ} {unit : Nat}

theorem mostAll_perm (perm : tasks.Perm tasks') : kind.mostAll tasks = kind.mostAll tasks' :=
  (perm.map kind.most).sum_nat

theorem mostAll_middle (before behind : List τ) (t : τ) :
    kind.mostAll (before ++ t :: behind) = kind.mostAll (before ++ behind) + kind.most t := by
  simp only [mostAll, List.map_append, List.map_cons, List.sum_append, List.sum_cons]
  omega

theorem mostAll_le (h : ∀ t ∈ tasks, kind.EndsWithin unit t) :
    kind.mostAll tasks ≤ tasks.length * unit := by
  have each := List.sum_le_card_nsmul (tasks.map kind.most) unit
    (List.forall_mem_map.2 fun t mem => (h t mem).most_le)
  rwa [List.length_map] at each

/-- **One of them that is pending** can be so less often from then on, and the others
as often. -/
theorem EndAll.waits (h : kind.EndAll (before ++ t :: behind))
    (polled : (kind.poll R t).value = .pending t') :
    kind.EndAll (before ++ t' :: behind)
      ∧ kind.mostAll (before ++ t' :: behind) < kind.mostAll (before ++ t :: behind) := by
  obtain ⟨n, ends⟩ := h t (List.mem_append_right _ List.mem_cons_self)
  obtain ⟨m, -, rest⟩ := ends.of_pending polled
  constructor
  · intro s mem
    rcases List.mem_append.1 mem with mem | mem
    · exact h s (List.mem_append_left _ mem)
    · rcases List.mem_cons.1 mem with rfl | mem
      · exact ⟨m, rest⟩
      · exact h s (List.mem_append_right _ (List.mem_cons_of_mem _ mem))
  · rw [mostAll_middle, mostAll_middle]
    exact Nat.add_lt_add_left (ends.most_lt polled) _

/-- One that is ready is so for good. -/
theorem EndAll.finishes (h : kind.EndAll (before ++ t :: behind)) :
    kind.EndAll (before ++ behind)
      ∧ kind.mostAll (before ++ behind) ≤ kind.mostAll (before ++ t :: behind) := by
  refine ⟨fun s mem => h s ?_, ?_⟩
  · exact List.mem_append.2 ((List.mem_append.1 mem).imp_right (List.mem_cons_of_mem _))
  · rw [mostAll_middle]
    exact Nat.le_add_right _ _

/-- So is it with one more, which is pending as often as given. -/
theorem EndAll.adds (h : kind.EndAll tasks) (ends : kind.EndsWithin unit t) :
    kind.EndAll (tasks ++ [t]) ∧ kind.mostAll (tasks ++ [t]) ≤ kind.mostAll tasks + unit := by
  constructor
  · intro s mem
    rcases List.mem_append.1 mem with mem | mem
    · exact h s mem
    · exact ⟨unit, List.mem_singleton.1 mem ▸ ends⟩
  · rw [mostAll_middle, List.append_nil]
    exact Nat.add_le_add_left ends.most_le _

end TaskKind

/-! ## Windows -/

namespace Window

variable {kind : TaskKind ε φ τ α} {width total unit : Nat} {supply : Nat → Option τ}
  {R : RefSet} {w w' : Window φ τ α} {reports : List ε}

/-- **A run of tasks that all become ready**, no more of them than a total. -/
structure Bounded (kind : TaskKind ε φ τ α) (total : Nat) (supply : Nat → Option τ)
    (w : Window φ τ α) : Prop where
  waiting : kind.EndAll w.tasks
  numbered : w.Numbered
  within : w.Within total supply

/-- **How often the tasks of a run can still be pending**, a task to come as often as
given. -/
noncomputable def weight (kind : TaskKind ε φ τ α) (total unit : Nat) (w : Window φ τ α) : Nat :=
  kind.mostAll w.tasks + (total - w.begun) * unit

/-- The front task among those that wait. -/
theorem tasks_front {n : Nat} {t : τ} {others : List (Nat × τ)}
    (front : w.queue.waiting = (n, t) :: others) : w.tasks = [] ++ t :: others.map Prod.snd :=
  congrArg (List.map Prod.snd) front

namespace Bounded

theorem start (last : ∀ n, total ≤ n → supply n = none) :
    (start : Window φ τ α).Bounded kind total supply :=
  ⟨List.forall_mem_nil _, .start, Nat.zero_le _, last⟩

theorem ofList {tasks : List τ} (h : kind.EndAll tasks) :
    (ofList tasks : Window φ τ α).Bounded kind tasks.length (fun _ => none) := by
  refine ⟨fun t mem => h t ?_, .ofList tasks, Nat.le_refl _, fun _ _ => rfl⟩
  rwa [tasks_ofList] at mem

/-- A wait of the front task makes a run lighter. -/
theorem waits (h : w.Bounded kind total supply) (unit : Nat) (m : Waits kind R w reports w') :
    kind.EndAll w'.tasks ∧ w'.weight kind total unit < w.weight kind total unit := by
  obtain ⟨m⟩ := m
  cases m with
  | @intro number task task' others front polled =>
    have back : List.Perm (others ++ [(number, task')]) ([] ++ (number, task') :: others) :=
      List.perm_append_comm
    have perm := back.map Prod.snd
    have waiting := h.waiting
    rw [tasks_front front] at waiting
    obtain ⟨all, less⟩ := waiting.waits polled
    refine ⟨fun t mem => all t (perm.mem_iff.1 mem), ?_⟩
    show kind.mostAll ((others ++ [(number, task')]).map Prod.snd) + _ < _
    rw [TaskKind.mostAll_perm perm, weight, tasks_front front]
    exact Nat.add_lt_add_right less _

/-- No move makes it heavier. -/
theorem move (h : w.Bounded kind total supply)
    (fresh : ∀ n t, supply n = some t → kind.EndsWithin unit t)
    (m : Move kind width supply R w reports w') :
    w'.Bounded kind total supply ∧ w'.weight kind total unit ≤ w.weight kind total unit := by
  suffices kind.EndAll w'.tasks ∧ w'.weight kind total unit ≤ w.weight kind total unit from
    ⟨⟨this.1, h.numbered.move m, h.within.move m⟩, this.2⟩
  cases m with
  | @begins task room next =>
    have tasks : ({ w with queue := w.queue.push w.begun task, begun := w.begun + 1 } :
        Window φ τ α).tasks = w.tasks ++ [task] := List.map_append
    have here : w.begun < total := by
      refine not_le.1 fun le => ?_
      rw [h.within.supply_eq_none _ le] at next
      cases next
    have once : (total - w.begun) * unit = (total - (w.begun + 1)) * unit + unit := by
      rw [← Nat.succ_mul]
      congr 1
      omega
    obtain ⟨all, le⟩ := h.waiting.adds (fresh _ _ next)
    refine ⟨tasks ▸ all, ?_⟩
    show _ + (total - (w.begun + 1)) * unit ≤ _
    rw [weight, tasks, once]
    omega
  | polls m =>
    cases m with
    | waits m => exact (h.waits unit (.intro m)).imp_right Nat.le_of_lt
    | finishes m =>
      cases m with
      | @intro number task others outcome front polled =>
        have waiting := h.waiting
        rw [tasks_front front] at waiting
        obtain ⟨all, le⟩ := waiting.finishes
        refine ⟨all, ?_⟩
        show kind.mostAll (others.map Prod.snd) + (total - w.begun) * unit ≤ _
        rw [weight, tasks_front front]
        exact Nat.add_le_add_right le _
  | delivers turn =>
    obtain ⟨-, rfl⟩ := Queue.takeEarly?_eq_some turn
    exact ⟨h.waiting, Nat.le_refl _⟩

/-- **A poll that leaves a run waiting** leaves it with less to wait for. -/
theorem run_pending {n : Nat} (h : w.Bounded kind total supply)
    (fresh : ∀ n t, supply n = some t → kind.EndsWithin unit t)
    (enough : total - w.delivered.size < n)
    (pending : (w.run kind width supply R n).value = .pending w') :
    w'.Bounded kind total supply ∧ w'.weight kind total unit < w.weight kind total unit := by
  have polled := w.run_polled kind width supply R n
  generalize w.run kind width supply R n = x at polled pending
  cases polled with
  | stalls stalled =>
    obtain rfl := Poll.pending.inj pending
    have isStep : ∀ {w ℓ w'}, Waits kind R w ℓ w' → Move kind width supply R w ℓ w' :=
      fun m => m.move
    have kept : ∀ {w ℓ w'}, Trail (Move kind width supply R) w ℓ w' →
        w.Bounded kind total supply → w'.Bounded kind total supply :=
      fun path h => path.invariant (fun h m => (h.move fresh m).1) h
    exact ⟨kept (stalled.trail isStep) h, stalled.weight_lt isStep
      (fun h m => h.move fresh m) (fun h m => (h.waits unit m).2) h⟩
  | tires path delivered => exact absurd delivered (h.within.delivered_ne h.numbered path enough)
  | finishes path empty missing full => cases pending
  | fails path turn => cases pending

end Bounded

end Window

/-! ## Joins -/

namespace Join

variable {kind : TaskKind ε φ τ α} {R : RefSet} {join join' : Join φ τ α} {reports : List ε}

/-- **Tasks waited for together that all become ready.** -/
inductive Bounded (kind : TaskKind ε φ τ α) : Join φ τ α → Prop
  | rounds {slots : List (Slot τ α)} (waiting : kind.EndAll (running slots)) :
      Bounded kind (.rounds slots)
  | run {w : Window φ τ α} (h : w.Bounded kind w.begun fun _ => none) : Bounded kind (.run w)

/-- In a run of tasks that are all begun only these count. -/
theorem weight_run (w : Window φ τ α) (total : Nat) :
    w.weight kind total 0 = kind.mostAll (run w : Join φ τ α).tasks := by
  rw [Window.weight, Nat.mul_zero]
  rfl

namespace Bounded

theorem ofList {tasks : List τ} (h : kind.EndAll tasks) :
    (Join.ofList tasks : Join φ τ α).Bounded kind := by
  have all := tasks_ofList (φ := φ) (α := α) tasks
  unfold Join.ofList at all ⊢
  split
  · rw [if_pos ‹_›] at all
    have running : running (tasks.map .running : List (Slot τ α)) = tasks := all
    exact .rounds (running.symm ▸ h)
  · exact .run (Window.Bounded.ofList h : Window.Bounded kind
      (Window.ofList tasks : Window φ τ α).begun _ _)

/-- A running task that has to wait makes slots lighter. -/
theorem waits_slots {slots slots' : List (Slot τ α)} (h : kind.EndAll (running slots))
    (m : Slot.Waits kind R slots reports slots') :
    kind.EndAll (running slots')
      ∧ kind.mostAll (running slots') < kind.mostAll (running slots) := by
  cases m with
  | intro polled =>
    rw [running_append] at h ⊢
    rw [running_append]
    exact TaskKind.EndAll.waits h polled

/-- One that succeeds does not make them heavier. -/
theorem move_slots {slots slots' : List (Slot τ α)} (h : kind.EndAll (running slots))
    (m : Slot.Move kind R slots reports slots') :
    kind.EndAll (running slots')
      ∧ kind.mostAll (running slots') ≤ kind.mostAll (running slots) := by
  cases m with
  | waits m => exact (waits_slots h m).imp_right Nat.le_of_lt
  | finishes m =>
    cases m with
    | intro polled =>
      rw [running_append] at h ⊢
      rw [running_append]
      exact TaskKind.EndAll.finishes h

/-- In a run of tasks that are all begun there is none to come. -/
theorem of_window {w : Window φ τ α} {total : Nat} (h : w.Bounded kind total fun _ => none) :
    Bounded kind (.run w) :=
  .run ⟨h.waiting, h.numbered, Nat.le_refl _, fun _ _ => rfl⟩

/-- No move makes a join heavier. -/
theorem move (h : join.Bounded kind) (m : Move kind R join reports join') :
    join'.Bounded kind ∧ kind.mostAll join'.tasks ≤ kind.mostAll join.tasks := by
  cases m with
  | rounds m =>
    cases h with
    | rounds waiting =>
      obtain ⟨all, le⟩ := move_slots waiting m
      exact ⟨.rounds all, le⟩
  | @run w w' _ m =>
    cases h with
    | run h =>
      have none : ∀ n t, (fun _ => none : Nat → Option τ) n = some t → kind.EndsWithin 0 t :=
        fun _ _ missing => nomatch missing
      obtain ⟨kept, le⟩ := h.move none m
      rw [weight_run, weight_run] at le
      exact ⟨of_window kept, le⟩

theorem waits (h : join.Bounded kind) (m : Waits kind R join reports join') :
    kind.mostAll join'.tasks < kind.mostAll join.tasks := by
  cases m with
  | rounds m =>
    cases h with
    | rounds waiting => exact (waits_slots waiting m).2
  | run m =>
    cases h with
    | run h =>
      have less := (h.waits 0 m).2
      rwa [weight_run, weight_run] at less

/-- **A poll that leaves a join waiting** leaves it with less to wait for. -/
theorem poll_pending (h : join.Bounded kind)
    (pending : (join.poll kind R).value = .pending join') :
    join'.Bounded kind ∧ kind.mostAll join'.tasks < kind.mostAll join.tasks := by
  have polled := join.poll_polled kind R
  generalize join.poll kind R = x at polled pending
  cases polled with
  | stalls stalled =>
    obtain rfl := Poll.pending.inj pending
    have isStep : ∀ {j ℓ j'}, Waits kind R j ℓ j' → Move kind R j ℓ j' := fun m => m.move
    have kept := (stalled.trail isStep).invariant (fun h m => (move h m).1) h
    have lighter := @Stalled.weight_lt _ _ _ _ _ _ _ (Bounded kind)
      (fun join => kind.mostAll join.tasks) stalled isStep (fun h m => move h m)
    exact ⟨kept, lighter (fun h m => waits h m) h⟩
  | @tires w w' _ start path delivered =>
    subst start
    cases h with
    | run h =>
      have size := h.numbered.size_eq
      exact absurd delivered (h.within.delivered_ne h.numbered path (by omega))
  | completes path complete => cases pending
  | fails path failure => cases pending

end Bounded

end Join

end DynValue.Schedule
