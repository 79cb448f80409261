import DynValue.Proofs.Schedule.Settling

/-!
# How tasks fail

What a task fails with may depend on the order in which its companions happen to
be ready, and on what goes out of reach meanwhile. What can be said for every
order is which failures are **possible**. A task fails only in some ways
(`TaskKind.FailsOnly`) if this is so of every state that polls bring it to, as long
as what is held lies between two bounds. It is the greatest such property, so it
may be shown of one state by any set of states that polls do not leave.

A scheduler of tasks that fail only in some ways fails only in these ways itself
(`Window.FailsOnly.run_accounts`, `Join.FailsOnly.poll_accounts`). Its moves keep
this, and it has no failures of its own.
-/

namespace DynValue.Schedule

open RefSet

variable {ε φ τ α : Type} {kind : TaskKind ε φ τ α} {base : RefSet} {top : Ref → Prop}
  {R : RefSet} {blame : φ → Prop}

namespace TaskKind

/-- An outcome that is expected: a result that holds nothing past the bound, or a
failure of the given kind. -/
def Expects (kind : TaskKind ε φ τ α) (top : Ref → Prop) (blame : φ → Prop) :
    Except φ α → Prop
  | .ok a => (kind.resultHolds a).Below top
  | .error e => blame e

/-- What a poll may come to: an expected outcome, or a state that is accounted for. -/
def Accounts (kind : TaskKind ε φ τ α) (top : Ref → Prop) (blame : φ → Prop)
    (states : τ → Prop) : Poll τ (Except φ α) → Prop
  | .pending t => states t
  | .ready o => kind.Expects top blame o

/-- **Some states are kept to** by every poll between the bounds, until it gives an
expected outcome. -/
def KeepsTo (kind : TaskKind ε φ τ α) (base : RefSet) (top : Ref → Prop) (blame : φ → Prop)
    (states : τ → Prop) : Prop :=
  ∀ t, states t → (kind.holds t).Below top ∧
    ∀ R, Between base top R → kind.Accounts top blame states (kind.poll R t).value

/-- **A task fails only in some ways**, however it is polled between the bounds. -/
def FailsOnly (kind : TaskKind ε φ τ α) (base : RefSet) (top : Ref → Prop)
    (blame : φ → Prop) (t : τ) : Prop :=
  ∃ states : τ → Prop, kind.KeepsTo base top blame states ∧ states t

theorem Expects.heldByOutcome {o : Except φ α} (h : kind.Expects top blame o) :
    (kind.heldByOutcome o).Below top := by
  cases o with
  | ok a => exact h
  | error e => exact .none

namespace FailsOnly

variable {t t' : τ} {o : Except φ α}

theorem holds (h : kind.FailsOnly base top blame t) : (kind.holds t).Below top := by
  obtain ⟨states, keeps, mem⟩ := h
  exact (keeps t mem).1

/-- What one poll comes to. -/
theorem polled (h : kind.FailsOnly base top blame t) (hR : Between base top R) :
    kind.Accounts top blame (kind.FailsOnly base top blame) (kind.poll R t).value := by
  obtain ⟨states, keeps, mem⟩ := h
  have accounted := (keeps t mem).2 R hR
  cases polled : (kind.poll R t).value with
  | pending t' =>
    rw [polled] at accounted
    exact ⟨states, keeps, accounted⟩
  | ready o =>
    rw [polled] at accounted
    exact accounted

theorem of_pending (h : kind.FailsOnly base top blame t) (hR : Between base top R)
    (polled : (kind.poll R t).value = .pending t') : kind.FailsOnly base top blame t' := by
  have accounted := h.polled hR
  rwa [polled] at accounted

theorem of_ready (h : kind.FailsOnly base top blame t) (hR : Between base top R)
    (polled : (kind.poll R t).value = .ready o) : kind.Expects top blame o := by
  have accounted := h.polled hR
  rwa [polled] at accounted

/-- **It is enough to look at one poll.** -/
theorem intro (holds : (kind.holds t).Below top)
    (polled : ∀ R, Between base top R →
      kind.Accounts top blame (kind.FailsOnly base top blame) (kind.poll R t).value) :
    kind.FailsOnly base top blame t := by
  refine ⟨fun t' => (kind.holds t').Below top ∧ ∀ R, Between base top R →
    kind.Accounts top blame (kind.FailsOnly base top blame) (kind.poll R t').value,
    fun t' h => ⟨h.1, fun R hR => ?_⟩, holds, polled⟩
  have accounted := h.2 R hR
  cases next : (kind.poll R t').value with
  | pending t'' =>
    rw [next] at accounted
    have later : kind.FailsOnly base top blame t'' := accounted
    exact ⟨later.holds, fun R hR => later.polled hR⟩
  | ready o =>
    rw [next] at accounted
    exact accounted

/-- A task that is polled to the same fails in the same ways. -/
theorem of_same_poll (h : kind.FailsOnly base top blame t) (holds : (kind.holds t').Below top)
    (same : ∀ R, Between base top R → (kind.poll R t').value = (kind.poll R t).value) :
    kind.FailsOnly base top blame t' :=
  intro holds fun R hR => same R hR ▸ h.polled hR

/-- To fail in fewer ways is to fail in more. -/
theorem mono {blame' : φ → Prop} (h : kind.FailsOnly base top blame t)
    (le : ∀ e, blame e → blame' e) : kind.FailsOnly base top blame' t := by
  refine ⟨kind.FailsOnly base top blame, fun t h => ⟨h.holds, fun R hR => ?_⟩, h⟩
  have accounted := h.polled hR
  cases polled : (kind.poll R t).value with
  | pending t' =>
    rw [polled] at accounted
    exact accounted
  | ready o =>
    rw [polled] at accounted
    cases o with
    | ok a => exact accounted
    | error e => exact le e accounted

end FailsOnly

end TaskKind

/-! ## Queues -/

namespace Queue

variable {q q' : Queue φ τ α} {reports : List ε}

/-- **Every task of a queue fails only in some ways**, and what is kept came from
such tasks. -/
structure FailsOnly (kind : TaskKind ε φ τ α) (base : RefSet) (top : Ref → Prop)
    (blame : φ → Prop) (q : Queue φ τ α) : Prop where
  waiting : ∀ t ∈ q.waiting, kind.FailsOnly base top blame t.2
  early : ∀ r ∈ q.early, kind.Expects top blame r.2

namespace FailsOnly

theorem heldByEarly (h : q.FailsOnly kind base top blame) : (q.heldByEarly kind).Below top :=
  .unionOf fun r hr => (h.early r hr).heldByOutcome

theorem holds (h : q.FailsOnly kind base top blame) : (q.holds kind).Below top :=
  .union (.unionOf fun t ht => (h.waiting t ht).holds) h.heldByEarly

/-- What is around the front task is between the bounds as well. -/
theorem around {front : Nat × τ} {others : List (Nat × τ)} (h : q.FailsOnly kind base top blame)
    (hq : q.waiting = front :: others) (hR : Between base top R) :
    Between base top (q.around kind R others) :=
  (hR.union h.heldByEarly).union
    (.unionOf fun t ht => (h.waiting t (hq ▸ List.mem_cons_of_mem _ ht)).holds)

theorem push {n : Nat} {t : τ} (h : q.FailsOnly kind base top blame)
    (ht : kind.FailsOnly base top blame t) : (q.push n t).FailsOnly kind base top blame := by
  refine ⟨fun t' ht' => ?_, h.early⟩
  rcases List.mem_append.1 ht' with ht' | ht'
  · exact h.waiting t' ht'
  · rw [List.mem_singleton.1 ht']
    exact ht

theorem move (h : q.FailsOnly kind base top blame) (hR : Between base top R)
    (m : Move kind R q reports q') : q'.FailsOnly kind base top blame := by
  cases m with
  | waits m =>
    cases m with
    | @intro number task task' others front polled =>
      have here := h.waiting _ (front ▸ List.mem_cons_self)
      have behind : ({ q with waiting := others } : Queue φ τ α).FailsOnly kind base top blame :=
        ⟨fun t ht => h.waiting t (front ▸ List.mem_cons_of_mem _ ht), h.early⟩
      exact behind.push (here.of_pending (h.around front hR) polled)
  | finishes m =>
    cases m with
    | @intro number task others outcome front polled =>
      have here := h.waiting _ (front ▸ List.mem_cons_self)
      exact ⟨fun t ht => h.waiting t (front ▸ List.mem_cons_of_mem _ ht),
        List.forall_mem_cons.2 ⟨here.of_ready (h.around front hR) polled, h.early⟩⟩

/-- What is taken from a queue is expected. -/
theorem takeEarly? {outcome : Except φ α} (h : q.FailsOnly kind base top blame)
    (turn : q.takeEarly? = some (outcome, q')) :
    kind.Expects top blame outcome ∧ q'.FailsOnly kind base top blame := by
  unfold Queue.takeEarly? at turn
  split at turn
  · rename_i r found
    obtain ⟨rfl, rfl⟩ := Prod.mk.inj (Option.some.inj turn)
    exact ⟨h.early r (List.mem_of_find?_eq_some found), h.waiting,
      fun r' hr' => h.early r' (List.mem_filter.1 hr').1⟩
  · cases turn

end FailsOnly

end Queue

/-! ## Windows -/

namespace Window

variable {width : Nat} {supply : Nat → Option τ} {w w' : Window φ τ α} {reports : List ε}

/-- **Every task of a run fails only in some ways**, those begun and those to come. -/
structure FailsOnly (kind : TaskKind ε φ τ α) (base : RefSet) (top : Ref → Prop)
    (blame : φ → Prop) (supply : Nat → Option τ) (w : Window φ τ α) : Prop where
  queue : w.queue.FailsOnly kind base top blame
  supply : ∀ n t, supply n = some t → kind.FailsOnly base top blame t
  held : ∀ a ∈ w.delivered, (kind.resultHolds a).Below top

/-- A poll of a run is accounted for by its failures and by the runs that follow. -/
def Accounts (kind : TaskKind ε φ τ α) (base : RefSet) (top : Ref → Prop) (blame : φ → Prop)
    (supply : Nat → Option τ) : Poll (Window φ τ α) (Except φ (Array α)) → Prop
  | .pending w => w.FailsOnly kind base top blame supply
  | .ready (.ok results) => ∀ a ∈ results, (kind.resultHolds a).Below top
  | .ready (.error e) => blame e

namespace FailsOnly

theorem heldByDelivered (h : w.FailsOnly kind base top blame supply) :
    (w.heldByDelivered kind).Below top := by
  intro r hr
  have hr : w.delivered.any (fun a => kind.resultHolds a r) = true := hr
  obtain ⟨a, mem, hr⟩ := Array.any_eq_true'.1 hr
  exact h.held a mem r hr

theorem holds (h : w.FailsOnly kind base top blame supply) : (w.holds kind).Below top :=
  h.queue.holds.union h.heldByDelivered

theorem start (h : ∀ n t, supply n = some t → kind.FailsOnly base top blame t) :
    (Window.start : Window φ τ α).FailsOnly kind base top blame supply :=
  ⟨⟨nofun, nofun⟩, h, fun _ mem => absurd mem (Array.not_mem_empty _)⟩

theorem move (h : w.FailsOnly kind base top blame supply) (hR : Between base top R)
    (m : Move kind width supply R w reports w') :
    w'.FailsOnly kind base top blame supply := by
  cases m with
  | begins room next => exact ⟨h.queue.push (h.supply _ _ next), h.supply, h.held⟩
  | polls m => exact ⟨h.queue.move (hR.union h.heldByDelivered) m, h.supply, h.held⟩
  | delivers turn =>
    obtain ⟨expected, rest⟩ := h.queue.takeEarly? turn
    refine ⟨rest, h.supply, fun a' mem => ?_⟩
    rcases Array.mem_push.1 mem with mem | rfl
    · exact h.held a' mem
    · exact expected

/-- **A run fails only as its tasks do.** -/
theorem run_accounts (h : w.FailsOnly kind base top blame supply) (hR : Between base top R)
    (n : Nat) : Accounts kind base top blame supply (w.run kind width supply R n).value := by
  have along {w'} {reports : List ε} (path : Trail (Move kind width supply R) w reports w') :
      w'.FailsOnly kind base top blame supply :=
    path.invariant (fun h m => h.move hR m) h
  have polled := w.run_polled kind width supply R n
  generalize w.run kind width supply R n = x at polled
  cases polled with
  | stalls stalled => exact along (stalled.trail Waits.move)
  | tires path => exact along path
  | finishes path => exact (along path).held
  | fails path turn => exact ((along path).queue.takeEarly? turn).1

end FailsOnly

end Window

/-! ## Joins -/

namespace Slot

variable {slots slots' : List (Slot τ α)} {reports : List ε}

/-- A slot whose task fails only in some ways, or has succeeded. -/
def FailsOnly (kind : TaskKind ε φ τ α) (base : RefSet) (top : Ref → Prop)
    (blame : φ → Prop) : Slot τ α → Prop
  | running t => kind.FailsOnly base top blame t
  | done a => (kind.resultHolds a).Below top

theorem FailsOnly.holds {s : Slot τ α} (h : s.FailsOnly kind base top blame) :
    (s.holds kind).Below top := by
  cases s with
  | running t => exact TaskKind.FailsOnly.holds h
  | done a => exact h

theorem FailsOnly.around {before behind : List (Slot τ α)} {s : Slot τ α}
    (h : ∀ x ∈ before ++ s :: behind, x.FailsOnly kind base top blame)
    (hR : Between base top R) : Between base top (around kind R before behind) :=
  hR.union (.union (.unionOf fun x hx => (h x (List.mem_append_left _ hx)).holds)
    (.unionOf fun x hx => (h x (List.mem_append_right _ (List.mem_cons_of_mem _ hx))).holds))

/-- The slot that is polled may be replaced. -/
theorem FailsOnly.replace {before behind : List (Slot τ α)} {s s' : Slot τ α}
    (h : ∀ x ∈ before ++ s :: behind, x.FailsOnly kind base top blame)
    (hs : s'.FailsOnly kind base top blame) :
    ∀ x ∈ before ++ s' :: behind, x.FailsOnly kind base top blame := by
  intro x hx
  rcases List.mem_append.1 hx with hx | hx
  · exact h x (List.mem_append_left _ hx)
  · rcases List.mem_cons.1 hx with rfl | hx
    · exact hs
    · exact h x (List.mem_append_right _ (List.mem_cons_of_mem _ hx))

theorem FailsOnly.move (h : ∀ x ∈ slots, x.FailsOnly kind base top blame)
    (hR : Between base top R) (m : Move kind R slots reports slots') :
    ∀ x ∈ slots', x.FailsOnly kind base top blame := by
  cases m with
  | waits m =>
    cases m with
    | intro polled =>
      have here := h _ (List.mem_append_right _ List.mem_cons_self)
      exact replace h (TaskKind.FailsOnly.of_pending here (around h hR) polled)
  | finishes m =>
    cases m with
    | intro polled =>
      have here := h _ (List.mem_append_right _ List.mem_cons_self)
      exact replace h (TaskKind.FailsOnly.of_ready here (around h hR) polled)

theorem FailsOnly.fails {e : φ} (h : ∀ x ∈ slots, x.FailsOnly kind base top blame)
    (hR : Between base top R) (failure : Fails kind R slots reports e) : blame e := by
  cases failure with
  | intro polled =>
    have here := h _ (List.mem_append_right _ List.mem_cons_self)
    exact TaskKind.FailsOnly.of_ready here (around h hR) polled

end Slot

namespace Join

variable {join join' : Join φ τ α} {reports : List ε}

/-- **Every task of a join fails only in some ways.** -/
def FailsOnly (kind : TaskKind ε φ τ α) (base : RefSet) (top : Ref → Prop)
    (blame : φ → Prop) : Join φ τ α → Prop
  | rounds slots => ∀ s ∈ slots, s.FailsOnly kind base top blame
  | run w => w.FailsOnly kind base top blame (fun _ => none)

/-- A poll of a join is accounted for by its failures and by the joins that follow. -/
def Accounts (kind : TaskKind ε φ τ α) (base : RefSet) (top : Ref → Prop)
    (blame : φ → Prop) : Poll (Join φ τ α) (Except φ (List α)) → Prop
  | .pending join => join.FailsOnly kind base top blame
  | .ready (.ok results) => ∀ a ∈ results, (kind.resultHolds a).Below top
  | .ready (.error e) => blame e

namespace FailsOnly

theorem holds (h : join.FailsOnly kind base top blame) : (join.holds kind).Below top := by
  cases join with
  | rounds slots => exact .unionOf fun s hs => (h s hs).holds
  | run w => exact Window.FailsOnly.holds h

theorem ofList {tasks : List τ} (h : ∀ t ∈ tasks, kind.FailsOnly base top blame t) :
    (Join.ofList tasks : Join φ τ α).FailsOnly kind base top blame := by
  unfold Join.ofList
  split
  · intro s hs
    obtain ⟨t, ht, rfl⟩ := List.mem_map.1 hs
    exact h t ht
  · refine ⟨⟨fun t ht => ?_, nofun⟩, nofun, fun _ mem => absurd mem (Array.not_mem_empty _)⟩
    obtain ⟨⟨task, n⟩, hn, rfl⟩ := List.mem_map.1 ht
    exact h task ((List.mem_zipIdx' hn).2 ▸ List.getElem_mem _)

theorem move (h : join.FailsOnly kind base top blame) (hR : Between base top R)
    (m : Move kind R join reports join') : join'.FailsOnly kind base top blame := by
  cases m with
  | rounds m => exact Slot.FailsOnly.move h hR m
  | run m => exact Window.FailsOnly.move h hR m

/-- **A join fails only as its tasks do.** -/
theorem poll_accounts (h : join.FailsOnly kind base top blame) (hR : Between base top R) :
    Accounts kind base top blame (join.poll kind R).value := by
  have along {join'} {reports : List ε} (path : Trail (Move kind R) join reports join') :
      join'.FailsOnly kind base top blame :=
    path.invariant (fun h m => h.move hR m) h
  have polled := join.poll_polled kind R
  generalize join.poll kind R = x at polled
  cases polled with
  | stalls stalled => exact along (stalled.trail Waits.move)
  | tires start path =>
    subst start
    exact path.invariant (fun h m => Window.FailsOnly.move h hR m) h
  | completes path complete =>
    have last := along path
    cases complete with
    | rounds results => exact fun a mem => last (.done a) (List.mem_map_of_mem mem)
    | run => exact fun a mem => Window.FailsOnly.held last a (Array.mem_def.2 mem)
  | fails path failure =>
    have last := along path
    show blame _
    cases failure with
    | rounds failure => exact Slot.FailsOnly.fails last hR failure
    | run turn => exact (Queue.FailsOnly.takeEarly? (Window.FailsOnly.queue last) turn).1

end FailsOnly

end Join

end DynValue.Schedule
