import DynValue.Proofs.Schedule.Numbering

/-!
# Tasks that settle

What a poll does may depend on what is held around the task. A task
**settles** if it does not matter as long as what is held lies between two
bounds: after a fixed number of polls in which it has to wait, it is ready
with a fixed outcome (`TaskKind.Settles`).

Tasks that settle and hold nothing past the upper bound are surroundings
for each other that lie between the bounds. So a scheduler of such tasks
does not notice its own surroundings either: its polls come to the same
between the bounds (`Window.run_value_eq`, `Join.poll_value_eq`).
-/

namespace DynValue

namespace RefSet

/-! ## Sets between two bounds -/

variable {base R s : RefSet} {top : Ref → Prop}

/-- Nothing in a set is past a bound. -/
def Below (top : Ref → Prop) (R : RefSet) : Prop := ∀ r, R r = true → top r

/-- **A set between two others**: it has what the lower one has, and nothing
past the upper one. -/
structure Between (base : RefSet) (top : Ref → Prop) (R : RefSet) : Prop where
  above : ∀ r, base r = true → R r = true
  below : R.Below top

theorem Below.none : none.Below top := fun _ h => absurd h Bool.false_ne_true

theorem Below.single {r : Ref} (h : top r) : (single r).Below top := by
  intro r' hr'
  rw [single_apply, decide_eq_true_iff] at hr'
  exact hr' ▸ h

theorem Below.union (hR : R.Below top) (hs : s.Below top) : (union R s).Below top := by
  intro r hr
  rw [union_apply, Bool.or_eq_true] at hr
  exact hr.elim (hR r) (hs r)

theorem Below.unionOf {α : Type} {f : α → RefSet} {xs : List α}
    (h : ∀ x ∈ xs, (f x).Below top) : (unionOf f xs).Below top := by
  intro r hr
  obtain ⟨x, hx, hr⟩ := (unionOf_apply f xs r).1 hr
  exact h x hx r hr

theorem Between.self (h : base.Below top) : Between base top base := ⟨fun _ => id, h⟩

theorem Between.union (h : Between base top R) (hs : s.Below top) :
    Between base top (union R s) := by
  refine ⟨fun r hr => ?_, h.below.union hs⟩
  rw [union_apply, h.above r hr, Bool.true_or]

end RefSet

namespace Schedule

open RefSet

variable {ε φ τ α : Type} {kind : TaskKind ε φ τ α} {base : RefSet} {top : Ref → Prop}
  {R R' : RefSet} {out : Nat → Except φ α}

/-! ## Settling -/

namespace TaskKind

/-- **A task settles** with an outcome after a number of polls in which it
has to wait, whatever is held between the bounds. All the while it holds
nothing past the upper one, and neither does the outcome. -/
inductive Settles (kind : TaskKind ε φ τ α) (base : RefSet) (top : Ref → Prop) :
    τ → Except φ α → Nat → Prop
  | ready {t : τ} {o : Except φ α} (holds : (kind.holds t).Below top)
      (kept : (kind.heldByOutcome o).Below top)
      (polled : ∀ {R}, Between base top R → (kind.poll R t).value = .ready o) :
      Settles kind base top t o 0
  | pending {t t' : τ} {o : Except φ α} {n : Nat} (holds : (kind.holds t).Below top)
      (polled : ∀ {R}, Between base top R → (kind.poll R t).value = .pending t')
      (rest : Settles kind base top t' o n) : Settles kind base top t o (n + 1)

namespace Settles

variable {t t' : τ} {o o' : Except φ α} {n n' : Nat}

theorem holds (h : kind.Settles base top t o n) : (kind.holds t).Below top := by
  cases h with
  | ready holds => exact holds
  | pending holds => exact holds

theorem kept (h : kind.Settles base top t o n) : (kind.heldByOutcome o).Below top := by
  induction h with
  | ready _ kept => exact kept
  | pending _ _ _ ih => exact ih

/-- A poll comes to the same whatever is held. -/
theorem value_eq (h : kind.Settles base top t o n) (hR : Between base top R)
    (hR' : Between base top R') : (kind.poll R t).value = (kind.poll R' t).value := by
  cases h with
  | ready _ _ polled => rw [polled hR, polled hR']
  | pending _ polled => rw [polled hR, polled hR']

theorem of_ready (h : kind.Settles base top t o n) (hR : Between base top R)
    (ready : (kind.poll R t).value = .ready o') : o' = o ∧ n = 0 := by
  cases h with
  | ready _ _ polled => exact ⟨Poll.ready.inj (ready.symm.trans (polled hR)), rfl⟩
  | pending _ polled => cases ready.symm.trans (polled hR)

theorem of_pending (h : kind.Settles base top t o n) (hR : Between base top R)
    (pending : (kind.poll R t).value = .pending t') :
    ∃ m, n = m + 1 ∧ kind.Settles base top t' o m := by
  cases h with
  | ready _ _ polled => cases pending.symm.trans (polled hR)
  | pending _ polled rest =>
    obtain rfl := Poll.pending.inj (pending.symm.trans (polled hR))
    exact ⟨_, rfl, rest⟩

/-- **A task settles in one way.** -/
theorem unique (h : kind.Settles base top t o n) (h' : kind.Settles base top t o' n')
    (hb : base.Below top) : o' = o ∧ n' = n := by
  induction h generalizing n' with
  | ready _ _ polled => exact (h'.of_ready (.self hb) (polled (.self hb))).imp_left Eq.symm
  | pending _ polled _ ih =>
    obtain ⟨m, rfl, rest⟩ := h'.of_pending (.self hb) (polled (.self hb))
    exact (ih rest).imp_right (congrArg Nat.succ)

/-- Narrower bounds are as good. -/
theorem narrow {base' : RefSet} (h : kind.Settles base top t o n)
    (le : ∀ r, base r = true → base' r = true) : kind.Settles base' top t o n := by
  have weaken : ∀ {R}, Between base' top R → Between base top R :=
    fun hR => ⟨fun r hr => hR.above r (le r hr), hR.below⟩
  induction h with
  | ready holds kept polled => exact .ready holds kept (fun hR => polled (weaken hR))
  | pending holds polled _ ih => exact .pending holds (fun hR => polled (weaken hR)) ih

/-- A task that is polled to the same settles in the same way. -/
theorem of_same_poll (h : kind.Settles base top t o n) (holds : (kind.holds t').Below top)
    (same : ∀ {R}, Between base top R → (kind.poll R t').value = (kind.poll R t).value) :
    kind.Settles base top t' o n := by
  cases h with
  | ready _ kept polled => exact .ready holds kept (fun hR => (same hR).trans (polled hR))
  | pending _ polled rest => exact .pending holds (fun hR => (same hR).trans (polled hR)) rest

end Settles

/-- **What gets smaller with every wait** settles. `P n` are the tasks known
to wait at most `n` times, and `Q` are the outcomes that they may have. -/
theorem settles_of_measure {P : Nat → τ → Prop} {Q : Except φ α → Prop}
    (holds : ∀ n t, P n t → (kind.holds t).Below top)
    (same : ∀ n t R, P n t → Between base top R →
      (kind.poll R t).value = (kind.poll base t).value)
    (cases : ∀ n t, P n t →
      (∃ m t', (kind.poll base t).value = .pending t' ∧ m < n ∧ P m t')
        ∨ ∃ o, (kind.poll base t).value = .ready o ∧ (kind.heldByOutcome o).Below top ∧ Q o)
    {n : Nat} {t : τ} (h : P n t) :
    ∃ o, ∃ m ≤ n, kind.Settles base top t o m ∧ Q o := by
  induction n using Nat.strong_induction_on generalizing t with
  | _ n ih =>
    rcases cases n t h with ⟨m, t', polled, less, h'⟩ | ⟨o, polled, kept, hq⟩
    · obtain ⟨o, k, le, rest, hq⟩ := ih m less h'
      refine ⟨o, k + 1, Nat.lt_of_le_of_lt le less, ?_, hq⟩
      exact .pending (holds n t h) (fun hR => (same n t _ h hR).trans polled) rest
    · refine ⟨o, 0, Nat.zero_le n, ?_, hq⟩
      exact .ready (holds n t h) kept (fun hR => (same n t _ h hR).trans polled)

open Classical in
/-- How often a task that settles has to wait. -/
noncomputable def waits (kind : TaskKind ε φ τ α) (base : RefSet) (top : Ref → Prop)
    (t : τ) : Nat :=
  if h : ∃ n, ∃ o, kind.Settles base top t o n then h.choose else 0

theorem Settles.waits_eq {t : τ} {o : Except φ α} {n : Nat}
    (h : kind.Settles base top t o n) (hb : base.Below top) : kind.waits base top t = n := by
  have some : ∃ n, ∃ o, kind.Settles base top t o n := ⟨n, o, h⟩
  obtain ⟨o', h'⟩ := some.choose_spec
  rw [waits, dif_pos some]
  exact (h.unique h' hb).2

end TaskKind

/-! ## Queues -/

namespace Queue

variable {held : RefSet} {q q' : Queue φ τ α}

/-- **Every task of a queue settles**, by its number, and what is kept came
from one that did. -/
structure Due (kind : TaskKind ε φ τ α) (base : RefSet) (top : Ref → Prop)
    (out : Nat → Except φ α) (q : Queue φ τ α) : Prop where
  waiting : ∀ t ∈ q.waiting, ∃ n, kind.Settles base top t.2 (out t.1) n
  early : ∀ r ∈ q.early, r.2 = out r.1 ∧ (kind.heldByOutcome r.2).Below top

namespace Due

theorem heldByTasks (h : ∀ t ∈ q.waiting, ∃ n, kind.Settles base top t.2 (out t.1) n) :
    (kind.heldByTasks q.waiting).Below top :=
  .unionOf fun t ht => (h t ht).elim fun _ settles => settles.holds

theorem heldByEarly (h : q.Due kind base top out) : (q.heldByEarly kind).Below top :=
  .unionOf fun r hr => (h.early r hr).2

theorem holds (h : q.Due kind base top out) : (q.holds kind).Below top :=
  (heldByTasks h.waiting).union h.heldByEarly

/-- What is around the front task is between the bounds as well. -/
theorem around {front : Nat × τ} {others : List (Nat × τ)} (h : q.Due kind base top out)
    (hq : q.waiting = front :: others) (hR : Between base top R) :
    Between base top (q.around kind R others) :=
  (hR.union h.heldByEarly).union
    (.unionOf fun t ht => (h.waiting t (hq ▸ List.mem_cons_of_mem _ ht)).elim
      fun _ settles => settles.holds)

theorem of_waits {reports : List ε} (h : q.Due kind base top out) (hR : Between base top R)
    (m : Waits kind R q reports q') : q'.Due kind base top out := by
  cases m with
  | @intro number task task' others front polled =>
    obtain ⟨n, settles⟩ := h.waiting (number, task) (front ▸ List.mem_cons_self)
    obtain ⟨m, -, rest⟩ := settles.of_pending (h.around front hR) polled
    refine ⟨fun t ht => ?_, h.early⟩
    rcases List.mem_append.1 ht with ht | ht
    · exact h.waiting t (front ▸ List.mem_cons_of_mem _ ht)
    · rw [List.mem_singleton.1 ht]
      exact ⟨m, rest⟩

theorem of_finishes {reports : List ε} (h : q.Due kind base top out)
    (hR : Between base top R) (m : Finishes kind R q reports q') :
    q'.Due kind base top out := by
  cases m with
  | @intro number task others outcome front polled =>
    obtain ⟨n, settles⟩ := h.waiting (number, task) (front ▸ List.mem_cons_self)
    obtain ⟨same, -⟩ := settles.of_ready (h.around front hR) polled
    refine ⟨fun t ht => h.waiting t (front ▸ List.mem_cons_of_mem _ ht), fun r hr => ?_⟩
    rcases List.mem_cons.1 hr with rfl | hr
    · exact ⟨same, same ▸ settles.kept⟩
    · exact h.early r hr

theorem move {reports : List ε} (h : q.Due kind base top out) (hR : Between base top R)
    (m : Move kind R q reports q') : q'.Due kind base top out := by
  cases m with
  | waits m => exact h.of_waits hR m
  | finishes m => exact h.of_finishes hR m

theorem trail {reports : List ε} (h : q.Due kind base top out) (hR : Between base top R)
    (path : Trail (Move kind R) q reports q') : q'.Due kind base top out :=
  path.invariant (fun h m => h.move hR m) h

/-- Taking a kept outcome leaves a queue whose tasks settle. -/
theorem takeEarly? {outcome : Except φ α} (h : q.Due kind base top out)
    (turn : q.takeEarly? = some (outcome, q')) :
    outcome = out q.next ∧ (kind.heldByOutcome outcome).Below top
      ∧ q'.Due kind base top out := by
  unfold Queue.takeEarly? at turn
  split at turn
  · rename_i r found
    obtain ⟨rfl, rfl⟩ := Prod.mk.inj (Option.some.inj turn)
    have mem := List.mem_of_find?_eq_some found
    have number : r.1 = q.next := by simpa using List.find?_some found
    refine ⟨number ▸ (h.early r mem).1, (h.early r mem).2, h.waiting, fun r' hr' => ?_⟩
    exact h.early r' ((List.mem_filter.1 hr').1)
  · cases turn

end Due

/-! ### Polls come to the same between the bounds -/

theorem sweep_value_eq {n : Nat} {waiting : List (Nat × τ)}
    (h : ∀ t ∈ waiting, ∃ n, kind.Settles base top t.2 (out t.1) n)
    (hR : Between base top R) (hR' : Between base top R') :
    (sweep kind R n waiting).value = (sweep kind R' n waiting).value := by
  induction n generalizing waiting with
  | zero => cases waiting <;> rfl
  | succ n ih =>
    cases waiting with
    | nil => rfl
    | cons front others =>
      obtain ⟨number, task⟩ := front
      obtain ⟨m, settles⟩ := h (number, task) List.mem_cons_self
      have behind : (kind.heldByTasks others).Below top :=
        .unionOf fun t ht => (h t (List.mem_cons_of_mem _ ht)).elim fun _ s => s.holds
      have same := settles.value_eq (hR.union behind) (hR'.union behind)
      cases hp : (kind.poll (RefSet.union R (kind.heldByTasks others)) task).value with
      | ready outcome => rw [sweep_cons_ready hp, sweep_cons_ready (same ▸ hp)]
      | pending task' =>
        rw [sweep_cons_pending hp, sweep_cons_pending (same ▸ hp)]
        obtain ⟨m', -, rest⟩ := settles.of_pending (hR.union behind) hp
        refine ih (fun t ht => ?_)
        rcases List.mem_append.1 ht with ht | ht
        · exact h t (List.mem_cons_of_mem _ ht)
        · rw [List.mem_singleton.1 ht]
          exact ⟨m', rest⟩

theorem search_value_eq {n : Nat} (h : q.Due kind base top out) (hR : Between base top R)
    (hR' : Between base top R') :
    (q.search kind R n).value = (q.search kind R' n).value := by
  induction n generalizing q with
  | zero => rfl
  | succ n ih =>
    have same := sweep_value_eq (n := patience q.waiting) h.waiting
      (hR.union h.heldByEarly) (hR'.union h.heldByEarly)
    have swept := sweep_swept kind R (patience q.waiting) q
    rw [search, search, Logged.value_bind, Logged.value_bind, ← same]
    generalize sweep kind (RefSet.union R (q.heldByEarly kind)) _ q.waiting = x at swept
    cases swept with
    | waits stalled => rfl
    | tires zero busy => rfl
    | idle empty => rfl
    | @finished q₁ reports last number outcome waiting path finishes =>
      by_cases turn : number = q.next
      · simp only [turn, if_true]
      · simp only [turn, if_false]
        exact ih ((h.trail hR (path.map id .waits)).of_finishes hR finishes)

theorem deliver_value_eq (h : q.Due kind base top out) (hR : Between base top R)
    (hR' : Between base top R') : (q.deliver kind R).value = (q.deliver kind R').value := by
  unfold deliver
  split
  · rfl
  · exact search_value_eq h hR hR'

end Queue

/-! ## Windows -/

namespace Window

variable {width : Nat} {supply : Nat → Option τ} {w w' : Window φ τ α}

/-- **Every task of a run settles**, those begun and those to come. -/
structure Due (kind : TaskKind ε φ τ α) (base : RefSet) (top : Ref → Prop)
    (out : Nat → Except φ α) (supply : Nat → Option τ) (w : Window φ τ α) : Prop where
  queue : w.queue.Due kind base top out
  supply : ∀ n t, supply n = some t → ∃ m, kind.Settles base top t (out n) m
  turn : w.queue.next = w.delivered.size
  /-- The results delivered are those of the first tasks. -/
  delivered : (List.range w.delivered.size).map out = w.delivered.toList.map Except.ok
  held : (w.heldByDelivered kind).Below top

namespace Due

theorem of_queue {q : Queue φ τ α} (h : w.Due kind base top out supply)
    (hq : q.Due kind base top out) (turn : q.next = w.queue.next) :
    ({ w with queue := q } : Window φ τ α).Due kind base top out supply :=
  ⟨hq, h.supply, turn.trans h.turn, h.delivered, h.held⟩

/-- What is held around the queue. -/
theorem around (h : w.Due kind base top out supply) (hR : Between base top R) :
    Between base top (RefSet.union R (w.heldByDelivered kind)) :=
  hR.union h.held

theorem begins {t : τ} (h : w.Due kind base top out supply)
    (next : supply w.begun = some t) :
    ({ w with queue := w.queue.push w.begun t, begun := w.begun + 1 }
      : Window φ τ α).Due kind base top out supply := by
  refine ⟨⟨fun t' ht' => ?_, h.queue.early⟩, h.supply, h.turn, h.delivered, h.held⟩
  rcases List.mem_append.1 ht' with ht' | ht'
  · exact h.queue.waiting t' ht'
  · rw [List.mem_singleton.1 ht']
    exact h.supply _ _ next

theorem delivers {a : α} {q : Queue φ τ α} (h : w.Due kind base top out supply)
    (turn : w.queue.takeEarly? = some (.ok a, q)) :
    ({ w with queue := q, delivered := w.delivered.push a }
      : Window φ τ α).Due kind base top out supply := by
  obtain ⟨same, kept, hq⟩ := h.queue.takeEarly? turn
  have next : q.next = w.queue.next + 1 := (Queue.takeEarly?_eq_some turn).2 ▸ rfl
  refine ⟨hq, h.supply, ?_, ?_, fun r hr => ?_⟩
  · rw [next, h.turn, Array.size_push]
  · rw [Array.size_push, List.range_succ, List.map_append, h.delivered, Array.toList_push,
      List.map_append, List.map_singleton, List.map_singleton, ← h.turn, ← same]
  · have hr : (w.delivered.push a).any (fun a => kind.resultHolds a r) = true := hr
    rw [Array.any_push, Bool.or_eq_true] at hr
    exact hr.elim (h.held r) (kept r)

/-- **A move of a run of tasks that settle** leaves such a run. -/
theorem move {reports : List ε} (h : w.Due kind base top out supply)
    (hR : Between base top R) (m : Move kind width supply R w reports w') :
    w'.Due kind base top out supply := by
  cases m with
  | begins room next => exact h.begins next
  | polls m => exact h.of_queue (h.queue.move (h.around hR) m) m.next_eq
  | delivers turn => exact h.delivers turn

theorem trail {reports : List ε} (h : w.Due kind base top out supply)
    (hR : Between base top R) (path : Trail (Move kind width supply R) w reports w') :
    w'.Due kind base top out supply :=
  path.invariant (fun h m => h.move hR m) h

end Due

/-- **A poll of a run** comes to the same between the bounds. -/
theorem run_value_eq {n : Nat} (h : w.Due kind base top out supply)
    (hR : Between base top R) (hR' : Between base top R') :
    (w.run kind width supply R n).value = (w.run kind width supply R' n).value := by
  induction n generalizing w with
  | zero => rfl
  | succ n ih =>
    have filled : (w.refill width supply).Due kind base top out supply :=
      h.trail hR (refill_trail kind width supply R w).1
    rw [run, run]
    generalize w.refill width supply = w₁ at filled
    have same := Queue.deliver_value_eq filled.queue (filled.around hR) (filled.around hR')
    have sought := w₁.queue.deliver_sought kind (RefSet.union R (w₁.heldByDelivered kind))
    show (w₁.queue.deliver kind (RefSet.union R (w₁.heldByDelivered kind)) >>= _).value
      = (w₁.queue.deliver kind (RefSet.union R' (w₁.heldByDelivered kind)) >>= _).value
    rw [Logged.value_bind, Logged.value_bind, ← same]
    generalize w₁.queue.deliver kind (RefSet.union R _) = x at sought
    cases sought with
    | waits stalled => rfl
    | drained path empty missing => rfl
    | @item q₁ q' reports outcome path turn =>
      cases outcome with
      | error e => rfl
      | ok a =>
        have searched := filled.of_queue (filled.queue.trail (filled.around hR) path)
          (path.invariant (P := fun q => q.next = w₁.queue.next)
            (fun h m => m.next_eq.trans h) rfl)
        exact ih (searched.delivers turn)

end Window

/-! ## Joins -/

namespace Slot

variable {slots slots' : List (Slot τ α)}

/-- A slot whose task settles with an outcome, or has done so. -/
def Due (kind : TaskKind ε φ τ α) (base : RefSet) (top : Ref → Prop) (o : Except φ α) :
    Slot τ α → Prop
  | running t => ∃ n, kind.Settles base top t o n
  | done a => o = .ok a ∧ (kind.resultHolds a).Below top

theorem Due.holds {s : Slot τ α} {o : Except φ α} (h : s.Due kind base top o) :
    (s.holds kind).Below top := by
  cases s with
  | running t => exact h.elim fun _ settles => settles.holds
  | done a => exact h.2

/-- Slots that are due with the outcomes of their numbers. -/
def AllDue (kind : TaskKind ε φ τ α) (base : RefSet) (top : Ref → Prop)
    (out : Nat → Except φ α) (slots : List (Slot τ α)) : Prop :=
  ∀ (i : Nat) (s : Slot τ α), slots[i]? = some s → s.Due kind base top (out i)

namespace AllDue

theorem due (h : AllDue kind base top out slots) {s : Slot τ α} (hs : s ∈ slots) :
    ∃ o, s.Due kind base top o := by
  obtain ⟨i, hi⟩ := List.mem_iff_getElem?.1 hs
  exact ⟨out i, h i s hi⟩

theorem allHold (h : AllDue kind base top out slots) :
    (allHold kind slots).Below top :=
  .unionOf fun _ hs => (h.due hs).elim fun _ due => due.holds

variable {before behind : List (Slot τ α)} {s s' : Slot τ α}

theorem at_length (h : AllDue kind base top out (before ++ s :: behind)) :
    s.Due kind base top (out before.length) :=
  h before.length s (by rw [List.getElem?_append_right (Nat.le_refl _), Nat.sub_self]; rfl)

theorem around (h : AllDue kind base top out (before ++ s :: behind))
    (hR : Between base top R) : Between base top (around kind R before behind) := by
  refine hR.union (.union (.unionOf fun x hx => ?_) (.unionOf fun x hx => ?_))
  · exact (h.due (List.mem_append_left _ hx)).elim fun _ due => due.holds
  · exact (h.due (List.mem_append_right _ (List.mem_cons_of_mem _ hx))).elim
      fun _ due => due.holds

theorem replace (h : AllDue kind base top out (before ++ s :: behind))
    (hs : s'.Due kind base top (out before.length)) :
    AllDue kind base top out (before ++ s' :: behind) := by
  intro i x hx
  rcases Nat.lt_trichotomy i before.length with hi | rfl | hi
  · rw [List.getElem?_append_left hi] at hx
    exact h i x (by rw [List.getElem?_append_left hi]; exact hx)
  · rw [List.getElem?_append_right (Nat.le_refl _), Nat.sub_self] at hx
    exact Option.some.inj hx ▸ hs
  · obtain ⟨k, hk⟩ : ∃ k, i - before.length = k + 1 := ⟨i - before.length - 1, by omega⟩
    rw [List.getElem?_append_right (Nat.le_of_lt hi), hk] at hx
    exact h i x (by rw [List.getElem?_append_right (Nat.le_of_lt hi), hk]; exact hx)

theorem move {reports : List ε} (h : AllDue kind base top out slots)
    (hR : Between base top R) (m : Move kind R slots reports slots') :
    AllDue kind base top out slots' := by
  cases m with
  | waits m =>
    cases m with
    | intro polled =>
      obtain ⟨n, settles⟩ := h.at_length
      obtain ⟨m, -, rest⟩ := settles.of_pending (h.around hR) polled
      exact h.replace ⟨m, rest⟩
  | finishes m =>
    cases m with
    | intro polled =>
      obtain ⟨n, settles⟩ := h.at_length
      obtain ⟨same, -⟩ := settles.of_ready (h.around hR) polled
      exact h.replace ⟨same.symm, fun r hr => settles.kept r (same ▸ hr)⟩

end AllDue

/-- **A round** comes to the same between the bounds. -/
theorem round_value_eq {passed : List (Slot τ α)}
    (h : ∀ s ∈ slots, ∃ o, s.Due kind base top o)
    (hp : (allHold kind passed).Below top) (hR : Between base top R)
    (hR' : Between base top R') :
    (round kind R passed slots).value = (round kind R' passed slots).value := by
  induction slots generalizing passed with
  | nil => rfl
  | cons s slots ih =>
    have behind : ∀ s ∈ slots, ∃ o, s.Due kind base top o :=
      fun s hs => h s (List.mem_cons_of_mem _ hs)
    have pass : ∀ s' : Slot τ α, (s'.holds kind).Below top →
        (allHold kind (s' :: passed)).Below top := by
      intro s' hs'
      refine .unionOf fun x hx => ?_
      rcases List.mem_cons.1 hx with rfl | hx
      · exact hs'
      · exact fun r hr => hp r ((unionOf_apply _ _ r).2 ⟨x, hx, hr⟩)
    obtain ⟨o, due⟩ := h s List.mem_cons_self
    cases s with
    | done a => exact ih behind (pass (done a) due.2)
    | running t =>
      obtain ⟨n, settles⟩ := due
      have others : (RefSet.union (allHold kind passed) (allHold kind slots)).Below top :=
        hp.union (.unionOf fun s hs => (behind s hs).elim fun _ due => due.holds)
      have same := settles.value_eq (hR.union others) (hR'.union others)
      rw [round, round, Logged.value_bind, Logged.value_bind, ← same]
      cases polled : (kind.poll (RefSet.union R _) t).value with
      | pending t' =>
        obtain ⟨m, -, rest⟩ := settles.of_pending (hR.union others) polled
        exact ih behind (pass (running t') rest.holds)
      | ready outcome =>
        cases outcome with
        | error e => rfl
        | ok a =>
          obtain ⟨same, -⟩ := settles.of_ready (hR.union others) polled
          exact ih behind (pass (done a) (fun r hr => settles.kept r (same ▸ hr)))

end Slot

namespace Join

variable {join join' : Join φ τ α}

/-- **Every task of a join settles**, by its number. -/
def Due (kind : TaskKind ε φ τ α) (base : RefSet) (top : Ref → Prop)
    (out : Nat → Except φ α) : Join φ τ α → Prop
  | rounds slots => Slot.AllDue kind base top out slots
  | run w => w.Due kind base top out (fun _ => none)

theorem Due.holds (h : join.Due kind base top out) : (join.holds kind).Below top := by
  cases join with
  | rounds slots => exact Slot.AllDue.allHold h
  | run w => exact (Window.Due.queue h).holds.union (Window.Due.held h)

/-- **A poll of a join** comes to the same between the bounds. -/
theorem poll_value_eq (h : join.Due kind base top out) (hR : Between base top R)
    (hR' : Between base top R') :
    (join.poll kind R).value = (join.poll kind R').value := by
  cases join with
  | rounds slots =>
    have same : (Slot.round kind R [] slots).value = (Slot.round kind R' [] slots).value :=
      Slot.round_value_eq (fun s hs => Slot.AllDue.due h hs) (.unionOf fun x hx => nomatch hx)
        hR hR'
    rw [poll, poll, Logged.value_bind, Logged.value_bind, ← same]
  | run w =>
    have same : (w.run kind 0 (fun _ => none) R (w.queue.size + 1)).value
        = (w.run kind 0 (fun _ => none) R' (w.queue.size + 1)).value :=
      Window.run_value_eq h hR hR'
    rw [poll, poll, Logged.value_bind, Logged.value_bind, ← same]

end Join

end Schedule

end DynValue
