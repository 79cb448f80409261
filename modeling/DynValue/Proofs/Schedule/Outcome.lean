import DynValue.Proofs.Schedule.Settling
import Mathlib.Algebra.GroupWithZero.Nat
import Mathlib.Algebra.Order.BigOperators.Group.List
import Mathlib.Algebra.Order.Group.Nat

/-!
# What a scheduler of tasks that settle comes to

A poll that leaves a scheduler waiting had some task wait. If all tasks
settle, the number of times that they still have to wait gets smaller with
every such poll, so the scheduler becomes ready (`Window.Orderly.run_cases`,
`Join.Orderly.poll_cases`), and its outcome follows from the outcomes of its
tasks by number.

A window gathers all results in order, or fails as the **first** task that
fails, in the order of their numbers. A join gathers them all as well, but
fails as **some** task that fails: a few tasks are polled in rounds, and the
failure met first need not be the first in order.
-/

namespace DynValue.Schedule

open RefSet (Between)

variable {ε φ τ α : Type} {kind : TaskKind ε φ τ α} {base : RefSet} {top : Ref → Prop}
  {R : RefSet} {out : Nat → Except φ α} {total : Nat}

/-! ## Outcomes by number -/

/-- **The first outcomes are results**, these ones. -/
def Gathers (out : Nat → Except φ α) (total : Nat) (values : List α) : Prop :=
  (List.range total).map out = values.map Except.ok

/-- **The first failure** in the order of the numbers. -/
def FailsFirst (out : Nat → Except φ α) (total : Nat) (e : φ) : Prop :=
  ∃ k < total, out k = .error e ∧ ∃ values, Gathers out k values

/-- Some failure. -/
def FailsSome (out : Nat → Except φ α) (total : Nat) (e : φ) : Prop :=
  ∃ k < total, out k = .error e

theorem FailsFirst.some {e : φ} (h : FailsFirst out total e) : FailsSome out total e :=
  h.imp fun _ hk => ⟨hk.1, hk.2.1⟩

theorem Gathers.length_eq {values : List α} (h : Gathers out total values) :
    values.length = total := by
  have := congrArg List.length h
  rw [List.length_map, List.length_range, List.length_map] at this
  exact this.symm

theorem Gathers.getElem? {values : List α} (h : Gathers out total values) {k : Nat}
    (hk : k < total) : ∃ a, values[k]? = some a ∧ out k = .ok a := by
  have same := congrArg (fun l => l[k]?) h
  simp only [List.getElem?_map, List.getElem?_range hk, Option.map_some] at same
  obtain ⟨a, ha, eq⟩ := Option.map_eq_some_iff.1 same.symm
  exact ⟨a, ha, eq.symm⟩

/-! ## Windows -/

namespace Queue

/-- How often the tasks of a queue still have to wait. -/
noncomputable def waits (kind : TaskKind ε φ τ α) (base : RefSet) (top : Ref → Prop)
    (q : Queue φ τ α) : Nat :=
  (q.waiting.map fun t => kind.waits base top t.2).sum

variable {q q' : Queue φ τ α} {reports : List ε}

theorem Due.waits_waits (h : q.Due kind base top out) (hb : base.Below top)
    (hR : Between base top R) (m : Waits kind R q reports q') :
    q'.waits kind base top + 1 = q.waits kind base top := by
  cases m with
  | @intro number task task' others front polled =>
    obtain ⟨n, settles⟩ := h.waiting (number, task) (front ▸ List.mem_cons_self)
    obtain ⟨m, rfl, rest⟩ := settles.of_pending (h.around front hR) polled
    unfold waits
    rw [front, List.map_append, List.sum_append, List.map_singleton, List.sum_singleton,
      rest.waits_eq hb, List.map_cons, List.sum_cons, settles.waits_eq hb]
    omega

theorem Due.waits_finishes (h : q.Due kind base top out) (hb : base.Below top)
    (hR : Between base top R) (m : Finishes kind R q reports q') :
    q'.waits kind base top = q.waits kind base top := by
  cases m with
  | @intro number task others outcome front polled =>
    obtain ⟨n, settles⟩ := h.waiting (number, task) (front ▸ List.mem_cons_self)
    obtain ⟨-, rfl⟩ := settles.of_ready (h.around front hR) polled
    unfold waits
    rw [front, List.map_cons, List.sum_cons, settles.waits_eq hb, Nat.zero_add]

end Queue

namespace Window

variable {width : Nat} {supply : Nat → Option τ} {w w' : Window φ τ α} {reports : List ε}
  {unit : Nat}

/-- **A run of as many tasks, all of which settle**, numbered in order. -/
structure Orderly (kind : TaskKind ε φ τ α) (base : RefSet) (top : Ref → Prop)
    (out : Nat → Except φ α) (total width : Nat) (supply : Nat → Option τ)
    (w : Window φ τ α) : Prop where
  due : w.Due kind base top out supply
  numbered : w.Numbered
  within : w.Within total supply
  /-- Where no task is supplied, there is none to come. -/
  supplied : ∀ n, w.begun ≤ n → width = 0 ∨ supply n = none → total ≤ n

/-- How often the tasks of a run still have to wait, a task to come as often
as given. -/
noncomputable def waits (kind : TaskKind ε φ τ α) (base : RefSet) (top : Ref → Prop)
    (total unit : Nat) (w : Window φ τ α) : Nat :=
  w.queue.waits kind base top + (total - w.begun) * unit

theorem waits_start :
    (Window.start : Window φ τ α).waits kind base top total unit = total * unit :=
  Nat.zero_add _

namespace Orderly

theorem nothing_delivered (h : w.delivered = #[]) : (w.heldByDelivered kind).Below top := by
  intro r hr
  rw [heldByDelivered, h] at hr
  simp at hr

/-- **A run at its start** is orderly if each of its tasks settles. -/
theorem start (settles : ∀ n t, supply n = some t → ∃ m, kind.Settles base top t (out n) m)
    (supplied : ∀ n, supply n = none ↔ total ≤ n) (positive : width ≠ 0) :
    (start : Window φ τ α).Orderly kind base top out total width supply where
  due := ⟨⟨fun _ ht => (nomatch ht), fun _ hr => (nomatch hr)⟩, settles, rfl, rfl,
    nothing_delivered rfl⟩
  numbered := .start
  within := ⟨Nat.zero_le _, fun n hn => (supplied n).2 hn⟩
  supplied := fun n _ h => (supplied n).1 (h.resolve_left positive)

/-- **A run of tasks that are all begun** is orderly if each of them settles. -/
theorem ofList {tasks : List τ}
    (settles : ∀ n t, tasks[n]? = some t → ∃ m, kind.Settles base top t (out n) m) :
    (ofList tasks : Window φ τ α).Orderly kind base top out tasks.length 0
      (fun _ => none) where
  due := by
    refine ⟨⟨fun t ht => ?_, fun _ hr => (nomatch hr)⟩, fun _ _ none => (nomatch none), rfl,
      rfl, nothing_delivered rfl⟩
    obtain ⟨t', ht', rfl⟩ := List.mem_map.1 ht
    exact settles _ _ (List.mem_zipIdx_iff_getElem?.1 ht')
  numbered := .ofList tasks
  within := ⟨Nat.le_refl _, fun _ _ => rfl⟩
  supplied := fun _ hn _ => hn

theorem move (h : w.Orderly kind base top out total width supply)
    (hR : Between base top R) (m : Move kind width supply R w reports w') :
    w'.Orderly kind base top out total width supply := by
  refine ⟨h.due.move hR m, h.numbered.move m, h.within.move m, fun n hn => ?_⟩
  refine h.supplied n (Nat.le_trans ?_ hn)
  cases m with
  | begins => exact Nat.le_succ _
  | polls => exact Nat.le_refl _
  | delivers => exact Nat.le_refl _

theorem trail (h : w.Orderly kind base top out total width supply)
    (hR : Between base top R) (path : Trail (Move kind width supply R) w reports w') :
    w'.Orderly kind base top out total width supply :=
  path.invariant (fun h m => h.move hR m) h

/-- No move makes a run wait more often. -/
theorem waits_le (h : w.Orderly kind base top out total width supply) (hb : base.Below top)
    (hR : Between base top R) (bound : ∀ n t, supply n = some t → kind.waits base top t ≤ unit)
    (m : Move kind width supply R w reports w') :
    w'.waits kind base top total unit ≤ w.waits kind base top total unit := by
  have around := h.due.around hR
  cases m with
  | @begins task room next =>
    have here : w.begun < total := by
      refine not_le.1 (fun le => ?_)
      rw [h.within.supply_eq_none _ le] at next
      cases next
    have once : (total - w.begun) * unit = (total - (w.begun + 1)) * unit + unit := by
      rw [← Nat.succ_mul]
      congr 1
      omega
    have last : kind.waits base top (w.begun, task).2 ≤ unit := bound _ _ next
    show ((w.queue.waiting ++ [(w.begun, task)]).map _).sum + (total - (w.begun + 1)) * unit
      ≤ w.queue.waits kind base top + (total - w.begun) * unit
    rw [List.map_append, List.sum_append, List.map_singleton, List.sum_singleton, once]
    unfold Queue.waits
    omega
  | polls m =>
    refine Nat.add_le_add_right ?_ _
    cases m with
    | waits m => exact Nat.le_of_succ_le (h.due.queue.waits_waits hb around m).le
    | finishes m => exact (h.due.queue.waits_finishes hb around m).le
  | delivers turn =>
    obtain ⟨-, rfl⟩ := Queue.takeEarly?_eq_some turn
    exact Nat.le_refl _

theorem waits_lt (h : w.Orderly kind base top out total width supply) (hb : base.Below top)
    (hR : Between base top R) (m : Waits kind R w reports w') :
    w'.waits kind base top total unit < w.waits kind base top total unit := by
  cases m with
  | intro m =>
    exact Nat.add_lt_add_right (h.due.queue.waits_waits hb (h.due.around hR) m).le _

/-- **With no task left** the results delivered are all there are. -/
theorem gathers (h : w.Orderly kind base top out total width supply)
    (empty : w.queue.waiting = []) (missing : w.queue.takeEarly? = none)
    (full : supply w.begun = none ∨ width ≤ w.queue.size) :
    Gathers out total w.delivered.toList := by
  have all : w.delivered.size = w.begun := h.numbered.delivered_eq_begun empty missing
  have size := h.numbered.size_eq
  have last : total = w.delivered.size := by
    refine Nat.le_antisymm ?_ (all.le.trans h.within.begun_le)
    rw [all]
    refine h.supplied _ (Nat.le_refl _) (full.symm.imp_left fun le => ?_)
    omega
  rw [last]
  exact h.due.delivered

/-- **A failure whose turn has come** is the first. -/
theorem failsFirst {e : φ} {q : Queue φ τ α}
    (h : w.Orderly kind base top out total width supply)
    (turn : w.queue.takeEarly? = some (.error e, q)) : FailsFirst out total e := by
  obtain ⟨same, -, -⟩ := h.due.queue.takeEarly? turn
  have number := h.numbered.mem_numbers.1 (List.mem_append_right _
    (List.mem_map_of_mem (Queue.takeEarly?_eq_some turn).1))
  rw [h.due.turn] at same number
  exact ⟨_, number.2.trans_le h.within.begun_le, same.symm, _, h.due.delivered⟩

/-- **A poll of an orderly run** leaves it with less to wait for, or gathers
all results, or fails as the first task that fails. -/
theorem run_cases {n : Nat} (h : w.Orderly kind base top out total width supply)
    (hb : base.Below top) (hR : Between base top R)
    (bound : ∀ n t, supply n = some t → kind.waits base top t ≤ unit)
    (enough : total - w.delivered.size < n) :
    (∃ w', (w.run kind width supply R n).value = .pending w'
        ∧ w'.Orderly kind base top out total width supply
        ∧ w'.waits kind base top total unit < w.waits kind base top total unit)
      ∨ (∃ values, (w.run kind width supply R n).value = .ready (.ok values)
        ∧ Gathers out total values.toList)
      ∨ ∃ e, (w.run kind width supply R n).value = .ready (.error e)
        ∧ FailsFirst out total e := by
  have polled := w.run_polled kind width supply R n
  generalize w.run kind width supply R n = x at polled
  cases polled with
  | @stalls w' reports stalled =>
    have isStep : ∀ {w ℓ w'}, Waits kind R w ℓ w' → Move kind width supply R w ℓ w' :=
      fun m => m.move
    refine .inl ⟨w', rfl, h.trail hR (stalled.trail isStep), ?_⟩
    exact stalled.weight_lt isStep (fun h m => ⟨h.move hR m, h.waits_le hb hR bound m⟩)
      (fun h m => h.waits_lt hb hR m) h
  | tires path delivered => exact absurd delivered (h.within.delivered_ne h.numbered path enough)
  | finishes path empty missing full =>
    exact .inr (.inl ⟨_, rfl, (h.trail hR path).gathers empty missing full⟩)
  | fails path turn => exact .inr (.inr ⟨_, rfl, (h.trail hR path).failsFirst turn⟩)

end Orderly

end Window

/-! ## Joins -/

namespace Slot

variable {slots slots' : List (Slot τ α)} {reports : List ε}

/-- How often a slot still has to wait. -/
noncomputable def waits (kind : TaskKind ε φ τ α) (base : RefSet) (top : Ref → Prop) :
    Slot τ α → Nat
  | running t => kind.waits base top t
  | done _ => 0

/-- How often slots still have to wait together. -/
noncomputable def allWait (kind : TaskKind ε φ τ α) (base : RefSet) (top : Ref → Prop)
    (slots : List (Slot τ α)) : Nat :=
  (slots.map (waits kind base top)).sum

theorem allWait_replace (before behind : List (Slot τ α)) (s : Slot τ α) :
    allWait kind base top (before ++ s :: behind)
      = allWait kind base top (before ++ behind) + s.waits kind base top := by
  unfold allWait
  rw [List.map_append, List.map_cons, List.sum_append, List.sum_cons, List.map_append,
    List.sum_append]
  omega

theorem AllDue.waits_waits (h : AllDue kind base top out slots) (hb : base.Below top)
    (hR : Between base top R) (m : Waits kind R slots reports slots') :
    allWait kind base top slots' + 1 = allWait kind base top slots := by
  cases m with
  | intro polled =>
    obtain ⟨n, settles⟩ := h.at_length
    obtain ⟨m, rfl, rest⟩ := settles.of_pending (h.around hR) polled
    rw [allWait_replace, allWait_replace, waits, waits, settles.waits_eq hb, rest.waits_eq hb]
    rfl

theorem AllDue.waits_le (h : AllDue kind base top out slots) (hb : base.Below top)
    (hR : Between base top R) (m : Move kind R slots reports slots') :
    allWait kind base top slots' ≤ allWait kind base top slots := by
  cases m with
  | waits m => exact Nat.le_of_succ_le (h.waits_waits hb hR m).le
  | finishes m =>
    cases m with
    | intro polled =>
      rw [allWait_replace, allWait_replace]
      exact Nat.add_le_add_left (Nat.zero_le _) _

theorem Move.length_eq (m : Move kind R slots reports slots') :
    slots'.length = slots.length := by
  cases m with
  | waits m =>
    cases m with
    | intro polled => rw [List.length_append, List.length_append]; rfl
  | finishes m =>
    cases m with
    | intro polled => rw [List.length_append, List.length_append]; rfl

end Slot

namespace Join

variable {join join' : Join φ τ α} {reports : List ε}

/-- **As many tasks waited for together, all of which settle.** -/
inductive Orderly (kind : TaskKind ε φ τ α) (base : RefSet) (top : Ref → Prop)
    (out : Nat → Except φ α) (total : Nat) : Join φ τ α → Prop
  | rounds {slots : List (Slot τ α)} (due : Slot.AllDue kind base top out slots)
      (length : slots.length = total) : Orderly kind base top out total (.rounds slots)
  | run {w : Window φ τ α} (h : w.Orderly kind base top out total 0 (fun _ => none)) :
      Orderly kind base top out total (.run w)

/-- How often the tasks still have to wait together. -/
noncomputable def waits (kind : TaskKind ε φ τ α) (base : RefSet) (top : Ref → Prop)
    (total : Nat) : Join φ τ α → Nat
  | rounds slots => Slot.allWait kind base top slots
  | run w => w.waits kind base top total 0

namespace Orderly

/-- Together they wait as often as each of them. -/
theorem waits_ofList_le {tasks : List τ} {unit : Nat}
    (bound : ∀ t ∈ tasks, kind.waits base top t ≤ unit) :
    (Join.ofList tasks : Join φ τ α).waits kind base top tasks.length
      ≤ tasks.length * unit := by
  have each : (tasks.map (kind.waits base top)).sum ≤ tasks.length * unit := by
    have := List.sum_le_card_nsmul (tasks.map (kind.waits base top)) unit
      (List.forall_mem_map.2 bound)
    rwa [List.length_map] at this
  unfold Join.ofList
  split
  · show ((tasks.map Slot.running).map (Slot.waits kind base top)).sum ≤ _
    rw [List.map_map]
    exact each
  · show ((tasks.zipIdx.map fun t => (t.2, t.1)).map _).sum + (_ - _) * 0 ≤ _
    rw [List.map_map, Nat.mul_zero, Nat.add_zero]
    have same : (tasks.zipIdx.map Prod.fst).map (kind.waits base top)
        = tasks.map (kind.waits base top) := by
      rw [List.zipIdx_map_fst]
    rw [List.map_map] at same
    exact (congrArg List.sum same).le.trans each

theorem due (h : join.Orderly kind base top out total) : join.Due kind base top out := by
  cases h with
  | rounds due length => exact due
  | run h => exact h.due

theorem move (h : join.Orderly kind base top out total) (hR : Between base top R)
    (m : Move kind R join reports join') : join'.Orderly kind base top out total := by
  cases m with
  | rounds m =>
    cases h with
    | rounds due length => exact .rounds (due.move hR m) (m.length_eq.trans length)
  | run m =>
    cases h with
    | run h => exact .run (h.move hR m)

theorem trail (h : join.Orderly kind base top out total) (hR : Between base top R)
    (path : Trail (Move kind R) join reports join') :
    join'.Orderly kind base top out total :=
  path.invariant (fun h m => h.move hR m) h

theorem waits_le (h : join.Orderly kind base top out total) (hb : base.Below top)
    (hR : Between base top R) (m : Move kind R join reports join') :
    join'.waits kind base top total ≤ join.waits kind base top total := by
  cases m with
  | rounds m =>
    cases h with
    | rounds due length => exact due.waits_le hb hR m
  | run m =>
    cases h with
    | run h => exact h.waits_le hb hR (fun _ _ none => nomatch none) m

theorem waits_lt (h : join.Orderly kind base top out total) (hb : base.Below top)
    (hR : Between base top R) (m : Waits kind R join reports join') :
    join'.waits kind base top total < join.waits kind base top total := by
  cases m with
  | rounds m =>
    cases h with
    | rounds due length => exact (due.waits_waits hb hR m).le
  | run m =>
    cases h with
    | run h => exact h.waits_lt hb hR m

theorem gathers {values : List α} (h : join.Orderly kind base top out total)
    (complete : Complete join values) : Gathers out total values := by
  cases complete with
  | rounds =>
    cases h with
    | rounds due length =>
      rw [← length, List.length_map]
      refine List.ext_getElem (by simp) (fun i hi hi' => ?_)
      rw [List.length_map] at hi'
      rw [List.getElem_map, List.getElem_range, List.getElem_map]
      refine (due i (.done values[i]) ?_).1
      rw [List.getElem?_map, List.getElem?_eq_getElem hi']
      rfl
  | run empty missing =>
    cases h with
    | run h => exact h.gathers empty missing (.inl rfl)

theorem failsSome {e : φ} (h : join.Orderly kind base top out total)
    (hR : Between base top R) (failure : Fails kind R join reports e) :
    FailsSome out total e := by
  cases failure with
  | rounds failure =>
    cases h with
    | rounds due length =>
      cases failure with
      | @intro before behind task _ polled =>
        obtain ⟨n, settles⟩ := due.at_length
        obtain ⟨same, -⟩ := settles.of_ready (due.around hR) polled
        refine ⟨before.length, ?_, same.symm⟩
        rw [← length, List.length_append, List.length_cons]
        omega
  | run turn =>
    cases h with
    | run h => exact (h.failsFirst turn).some

/-- **A poll of an orderly join** leaves it with less to wait for, or gathers
all results, or fails as one of the tasks that fail. -/
theorem poll_cases (h : join.Orderly kind base top out total) (hb : base.Below top)
    (hR : Between base top R) :
    (∃ join', (join.poll kind R).value = .pending join'
        ∧ join'.Orderly kind base top out total
        ∧ join'.waits kind base top total < join.waits kind base top total)
      ∨ (∃ values, (join.poll kind R).value = .ready (.ok values)
        ∧ Gathers out total values)
      ∨ ∃ e, (join.poll kind R).value = .ready (.error e) ∧ FailsSome out total e := by
  have polled := join.poll_polled kind R
  generalize join.poll kind R = x at polled
  cases polled with
  | @stalls join' reports stalled =>
    have isStep : ∀ {j ℓ j'}, Waits kind R j ℓ j' → Move kind R j ℓ j' := fun m => m.move
    refine .inl ⟨join', rfl, h.trail hR (stalled.trail isStep), ?_⟩
    exact stalled.weight_lt isStep (fun h m => ⟨h.move hR m, h.waits_le hb hR m⟩)
      (fun h m => h.waits_lt hb hR m) h
  | @tires w w' reports start path delivered =>
    subst start
    cases h with
    | run h =>
      have size := h.numbered.size_eq
      have last := h.supplied w.begun (Nat.le_refl _) (.inl rfl)
      exact absurd delivered (h.within.delivered_ne h.numbered path (by omega))
  | completes path complete => exact .inr (.inl ⟨_, rfl, (h.trail hR path).gathers complete⟩)
  | fails path failure => exact .inr (.inr ⟨_, rfl, (h.trail hR path).failsSome hR failure⟩)

end Orderly

end Join

end DynValue.Schedule
