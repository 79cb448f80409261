import DynValue.Proofs.Schedule.Outcome

/-!
# The failure that a scheduler meets

Of several tasks that fail, a window hands on the failure of the first, in the order
of their numbers. A few tasks that are waited for together are polled in rounds, each
once in a round, so a task that has to wait `n` times is over in round `n`. The
failure met is that of the task that waits least, and of those that wait equally long
that of the first (`FailsSoonest`). Which of the two rules holds depends on the number
of tasks alone (`FailsMet`, `Join.Timed.poll_cases`).

Tasks that succeed, placed behind the others, change neither the soonest failure nor
the first (`FailsSoonest.extend`, `FailsFirst.extend`). But they can be so many that
the one takes the place of the other. Where nothing waits the two are the same
(`FailsMet.first`).
-/

namespace DynValue.Schedule

open RefSet (Between)

variable {ε φ τ α : Type} {kind : TaskKind ε φ τ α} {base : RefSet} {top : Ref → Prop}
  {R : RefSet} {out : Nat → Except φ α} {waits : Nat → Nat} {total : Nat} {e e' : φ}

/-! ## Failures by number -/

/-- **The soonest failure**: that of a task that waits least, the first of them. -/
def FailsSoonest (waits : Nat → Nat) (out : Nat → Except φ α) (total : Nat) (e : φ) : Prop :=
  ∃ k < total, out k = .error e
    ∧ ∀ j < total, ∀ e', out j = .error e' →
        waits k < waits j ∨ waits k = waits j ∧ k ≤ j

/-- **The failure met** by a join of as many tasks: of few the soonest, of many the
first. -/
def FailsMet (waits : Nat → Nat) (out : Nat → Except φ α) (total : Nat) (e : φ) : Prop :=
  if total ≤ Join.roundLimit then FailsSoonest waits out total e else FailsFirst out total e

theorem exists_gathers {k : Nat} (good : ∀ j < k, ∃ a, out j = .ok a) :
    ∃ values, Gathers out k values := by
  induction k with
  | zero => exact ⟨[], rfl⟩
  | succ k ih =>
    obtain ⟨values, all⟩ := ih fun j hj => good j (Nat.lt_succ_of_lt hj)
    obtain ⟨a, last⟩ := good k (Nat.lt_succ_self k)
    refine ⟨values ++ [a], ?_⟩
    rw [Gathers, List.range_succ, List.map_append, all, List.map_append, List.map_singleton,
      last, List.map_singleton]

/-- The first failure comes after results only. -/
theorem failsFirst_iff :
    FailsFirst out total e
      ↔ ∃ k < total, out k = .error e ∧ ∀ j < k, ∃ a, out j = .ok a := by
  refine exists_congr fun k => and_congr_right fun _ => and_congr_right fun _ => ?_
  refine ⟨fun ⟨values, all⟩ j hj => ?_, exists_gathers⟩
  obtain ⟨a, -, same⟩ := all.getElem? hj
  exact ⟨a, same⟩

theorem FailsFirst.unique (h : FailsFirst out total e) (h' : FailsFirst out total e') :
    e' = e := by
  obtain ⟨k, -, failed, before⟩ := failsFirst_iff.1 h
  obtain ⟨k', -, failed', before'⟩ := failsFirst_iff.1 h'
  rcases Nat.lt_trichotomy k k' with lt | rfl | lt
  · obtain ⟨a, good⟩ := before' k lt
    cases failed.symm.trans good
  · exact Except.error.inj (failed'.symm.trans failed)
  · obtain ⟨a, good⟩ := before k' lt
    cases failed'.symm.trans good

theorem FailsSoonest.unique (h : FailsSoonest waits out total e)
    (h' : FailsSoonest waits out total e') : e' = e := by
  obtain ⟨k, lt, failed, least⟩ := h
  obtain ⟨k', lt', failed', least'⟩ := h'
  obtain rfl : k = k' := by
    have := least k' lt' e' failed'
    have := least' k lt e failed
    omega
  exact Except.error.inj (failed'.symm.trans failed)

theorem FailsSoonest.some (h : FailsSoonest waits out total e) : FailsSome out total e :=
  h.imp fun _ hk => ⟨hk.1, hk.2.1⟩

/-- Where nothing waits, the soonest failure is the first. -/
theorem FailsSoonest.first (h : FailsSoonest waits out total e)
    (idle : ∀ k < total, waits k = 0) : FailsFirst out total e := by
  obtain ⟨k, lt, failed, least⟩ := h
  refine failsFirst_iff.2 ⟨k, lt, failed, fun j hj => ?_⟩
  cases outcome : out j with
  | ok a => exact ⟨a, rfl⟩
  | error e' =>
    have := least j (hj.trans lt) e' outcome
    have := idle j (hj.trans lt)
    omega

theorem FailsFirst.extend {more : Nat} (h : FailsFirst out total e) :
    FailsFirst out (total + more) e :=
  h.imp fun _ hk => ⟨Nat.lt_add_right more hk.1, hk.2⟩

theorem FailsSoonest.extend {more : Nat} (h : FailsSoonest waits out total e)
    (good : ∀ k < more, ∃ a, out (total + k) = .ok a) :
    FailsSoonest waits out (total + more) e := by
  obtain ⟨k, lt, failed, least⟩ := h
  refine ⟨k, Nat.lt_add_right more lt, failed, fun j hj e' failed' => ?_⟩
  rcases Nat.lt_or_ge j total with within | past
  · exact least j within e' failed'
  · obtain ⟨i, rfl⟩ := Nat.exists_eq_add_of_le past
    obtain ⟨a, succeeds⟩ := good i (Nat.lt_of_add_lt_add_left hj)
    cases failed'.symm.trans succeeds

namespace FailsMet

theorem few (h : FailsMet waits out total e) (few : total ≤ Join.roundLimit) :
    FailsSoonest waits out total e := by
  rwa [FailsMet, if_pos few] at h

theorem many (h : FailsMet waits out total e) (many : Join.roundLimit < total) :
    FailsFirst out total e := by
  rwa [FailsMet, if_neg (Nat.not_le_of_lt many)] at h

theorem some (h : FailsMet waits out total e) : FailsSome out total e := by
  rcases Nat.lt_or_ge Join.roundLimit total with many | few
  · exact (h.many many).some
  · exact (h.few few).some

theorem unique (h : FailsMet waits out total e) (h' : FailsMet waits out total e') : e' = e := by
  rcases Nat.lt_or_ge Join.roundLimit total with many | few
  · exact (h.many many).unique (h'.many many)
  · exact (h.few few).unique (h'.few few)

/-- Tasks that succeed, placed behind the others, leave the failure met as it is if the
rule stays the same. -/
theorem extend {more : Nat} (h : FailsMet waits out total e)
    (good : ∀ k < more, ∃ a, out (total + k) = .ok a)
    (side : total + more ≤ Join.roundLimit ∨ Join.roundLimit < total) :
    FailsMet waits out (total + more) e := by
  rcases side with few | many
  · rw [FailsMet, if_pos few]
    exact (h.few ((Nat.le_add_right total more).trans few)).extend good
  · rw [FailsMet, if_neg (Nat.not_le_of_lt (Nat.lt_add_right more many))]
    exact (h.many many).extend

theorem first (h : FailsMet waits out total e) (idle : ∀ k < total, waits k = 0) :
    FailsFirst out total e := by
  rcases Nat.lt_or_ge Join.roundLimit total with many | few
  · exact h.many many
  · exact (h.few few).first idle

end FailsMet

/-! ## Rounds -/

namespace Slot

/-- **A slot after a number of rounds**, whose task fails or succeeds as given when it
has waited as often as given: it still has to wait for the rest of the time, or it
has succeeded in an earlier round. -/
def After (kind : TaskKind ε φ τ α) (base : RefSet) (top : Ref → Prop) (rounds waits : Nat)
    (o : Except φ α) : Slot τ α → Prop
  | running t => ∃ n, waits = rounds + n ∧ kind.Settles base top t o n
  | done a => o = .ok a ∧ waits < rounds ∧ (kind.resultHolds a).Below top

/-- Slots that are so with the outcomes of their numbers, from some number on. -/
def AllAfter (kind : TaskKind ε φ τ α) (base : RefSet) (top : Ref → Prop) (rounds : Nat)
    (waits : Nat → Nat) (out : Nat → Except φ α) (start : Nat) (slots : List (Slot τ α)) :
    Prop :=
  ∀ (i : Nat) (s : Slot τ α), slots[i]? = some s →
    s.After kind base top rounds (waits (start + i)) (out (start + i))

variable {rounds n start : Nat} {o : Except φ α} {s : Slot τ α} {passed slots : List (Slot τ α)}

theorem After.due (h : s.After kind base top rounds n o) : s.Due kind base top o := by
  cases s with
  | running t => exact h.imp fun _ h => h.2
  | done a => exact ⟨h.1, h.2.2⟩

/-- A slot whose task fails is not over before it has waited. -/
theorem After.le_waits {e : φ} (h : s.After kind base top rounds n (.error e)) :
    rounds ≤ n := by
  cases s with
  | running t =>
    obtain ⟨m, rfl, -⟩ := h
    exact Nat.le_add_right rounds m
  | done a => cases h.1

namespace AllAfter

theorem allHold (h : AllAfter kind base top rounds waits out start slots) :
    (allHold kind slots).Below top :=
  .unionOf fun s hs => by
    obtain ⟨i, hi⟩ := List.mem_iff_getElem?.1 hs
    exact (h i s hi).due.holds

theorem head (h : AllAfter kind base top rounds waits out start (s :: slots)) :
    s.After kind base top rounds (waits start) (out start) := h 0 s rfl

theorem tail (h : AllAfter kind base top rounds waits out start (s :: slots)) :
    AllAfter kind base top rounds waits out (start + 1) slots := by
  intro i s' hs
  rw [Nat.add_assoc, Nat.add_comm 1 i]
  exact h (i + 1) s' hs

/-- One slot more, polled in this round as well. -/
theorem snoc (h : AllAfter kind base top rounds waits out 0 passed.reverse)
    (hs : s.After kind base top rounds (waits passed.length) (out passed.length)) :
    AllAfter kind base top rounds waits out 0 (s :: passed).reverse := by
  intro i s' hs'
  rw [List.reverse_cons] at hs'
  rcases Nat.lt_or_ge i passed.reverse.length with lt | ge
  · rw [List.getElem?_append_left lt] at hs'
    exact h i s' hs'
  · rw [List.getElem?_append_right ge, List.getElem?_singleton] at hs'
    split at hs'
    · rename_i last
      obtain rfl : i = passed.length := by
        rw [List.length_reverse] at ge last
        omega
      rw [Nat.zero_add]
      exact Option.some.inj hs' ▸ hs
    · cases hs'

end AllAfter

/-- **A round** polls what has not been polled in it, and meets the soonest failure if
it meets one. -/
theorem round_value (hp : AllAfter kind base top (rounds + 1) waits out 0 passed.reverse)
    (hs : AllAfter kind base top rounds waits out passed.length slots)
    (hR : Between base top R) :
    (∀ slots', (round kind R passed slots).value = .ok slots' →
      slots'.length = passed.length + slots.length
      ∧ AllAfter kind base top (rounds + 1) waits out 0 slots')
    ∧ ∀ e, (round kind R passed slots).value = .error e →
      FailsSoonest waits out (passed.length + slots.length) e := by
  induction slots generalizing passed with
  | nil =>
    refine ⟨fun slots' same => ?_, by rintro _ ⟨⟩⟩
    cases same
    exact ⟨List.length_reverse, hp⟩
  | cons s slots ih =>
    have count : passed.length + (s :: slots).length = (s :: passed).length + slots.length := by
      rw [List.length_cons, List.length_cons]
      omega
    rw [count]
    cases s with
    | done a =>
      obtain ⟨same, earlier, kept⟩ := hs.head
      exact ih (hp.snoc (s := done a) ⟨same, Nat.lt_succ_of_lt earlier, kept⟩) hs.tail
    | running t =>
      obtain ⟨n, waited, settles⟩ := hs.head
      have around : Between base top
          (RefSet.union R (RefSet.union (Slot.allHold kind passed) (Slot.allHold kind slots))) := by
        refine hR.union (.union (fun r hr => ?_) hs.tail.allHold)
        refine hp.allHold r ((RefSet.unionOf_apply _ _ r).2 ?_)
        obtain ⟨x, hx, hr⟩ := (RefSet.unionOf_apply _ _ r).1 hr
        exact ⟨x, List.mem_reverse.2 hx, hr⟩
      rw [round, Logged.value_bind]
      cases polled : (kind.poll _ t).value with
      | pending t' =>
        obtain ⟨m, rfl, rest⟩ := settles.of_pending around polled
        exact ih (hp.snoc (s := running t') ⟨m, by omega, rest⟩) hs.tail
      | ready outcome =>
        obtain ⟨same, rfl⟩ := settles.of_ready around polled
        cases outcome with
        | ok a =>
          exact ih (hp.snoc (s := done a)
            ⟨same.symm, by omega, fun r hr => settles.kept r (same ▸ hr)⟩) hs.tail
        | error e =>
          refine ⟨by rintro _ ⟨⟩, fun _ failed => ?_⟩
          cases failed
          -- those before have waited longer, and those behind at least as long
          refine ⟨passed.length, by rw [← count, List.length_cons]; omega, same.symm,
            fun j hj e' failed => ?_⟩
          rcases Nat.lt_trichotomy j passed.length with lt | rfl | gt
          · have before := hp j _ (List.getElem?_eq_getElem (by rwa [List.length_reverse]))
            rw [Nat.zero_add, failed] at before
            have := before.le_waits
            omega
          · omega
          · obtain ⟨i, rfl⟩ := Nat.exists_eq_add_of_lt gt
            have behind := hs (i + 1) _ (List.getElem?_eq_getElem (by
              rw [List.length_cons] at hj
              rw [List.length_cons]
              omega))
            rw [← Nat.add_assoc, failed] at behind
            have := behind.le_waits
            omega

end Slot

/-! ## Joins -/

namespace Join

variable {join join' : Join φ τ α}

/-- **A join of as many tasks** that wait as often as given: few of them after a number
of rounds, or many in order. -/
inductive Timed (kind : TaskKind ε φ τ α) (base : RefSet) (top : Ref → Prop)
    (waits : Nat → Nat) (out : Nat → Except φ α) (total : Nat) : Join φ τ α → Prop
  | rounds {n : Nat} {slots : List (Slot τ α)} (few : total ≤ roundLimit)
      (length : slots.length = total) (after : Slot.AllAfter kind base top n waits out 0 slots) :
      Timed kind base top waits out total (.rounds slots)
  | run {w : Window φ τ α} (many : roundLimit < total)
      (h : w.Orderly kind base top out total 0 (fun _ => none)) :
      Timed kind base top waits out total (.run w)

namespace Timed

theorem ofList {tasks : List τ}
    (settles : ∀ n t, tasks[n]? = some t → kind.Settles base top t (out n) (waits n)) :
    (Join.ofList tasks : Join φ τ α).Timed kind base top waits out tasks.length := by
  unfold Join.ofList
  split
  · rename_i few
    refine .rounds (n := 0) few (List.length_map _) fun i s hs => ?_
    rw [List.getElem?_map] at hs
    obtain ⟨t, ht, rfl⟩ := Option.map_eq_some_iff.1 hs
    rw [Nat.zero_add]
    exact ⟨_, (Nat.zero_add _).symm, settles i t ht⟩
  · rename_i many
    exact .run (Nat.lt_of_not_le many) (.ofList fun n t ht => ⟨_, settles n t ht⟩)

theorem orderly (h : join.Timed kind base top waits out total) :
    join.Orderly kind base top out total := by
  cases h with
  | rounds few length after =>
    refine .rounds (fun i s hs => ?_) length
    have due := (after i s hs).due
    rwa [Nat.zero_add] at due
  | run many h => exact .run h

/-- What a poll leaves waits as often as given, and what it meets is the failure that
the number of tasks decides on. -/
theorem poll_value (h : join.Timed kind base top waits out total) (hb : base.Below top)
    (hR : Between base top R) :
    (∀ join', (join.poll kind R).value = .pending join' →
      join'.Timed kind base top waits out total)
    ∧ ∀ e, (join.poll kind R).value = .ready (.error e) → FailsMet waits out total e := by
  cases h with
  | @rounds n slots few length after =>
    rw [← length] at few ⊢
    have nobody : Slot.AllAfter kind base top (n + 1) waits out 0 [].reverse := by
      rintro _ _ ⟨⟩
    obtain ⟨polled, met⟩ := Slot.round_value nobody after hR
    rw [List.length_nil, Nat.zero_add] at polled met
    rw [poll, Logged.value_bind]
    cases outcome : (Slot.round kind R [] slots).value with
    | error e =>
      refine ⟨by rintro _ ⟨⟩, fun _ failed => ?_⟩
      cases failed
      rw [FailsMet, if_pos few]
      exact met e outcome
    | ok slots' =>
      obtain ⟨same, after'⟩ := polled slots' outcome
      dsimp only
      cases slots'.mapM Slot.result? with
      | some values => exact ⟨by rintro _ ⟨⟩, by rintro _ ⟨⟩⟩
      | none =>
        refine ⟨fun join' waits => ?_, by rintro _ ⟨⟩⟩
        cases waits
        exact .rounds few same after'
  | @run w many h =>
    have size := h.numbered.size_eq
    have last := h.supplied w.begun (Nat.le_refl _) (.inl rfl)
    have enough : total - w.delivered.size < w.queue.size + 1 := by omega
    have bound : ∀ (n : Nat) (t : τ), (fun _ => none : Nat → Option τ) n = some t →
        kind.waits base top t ≤ 0 := by
      rintro _ _ ⟨⟩
    have cases := h.run_cases hb hR bound enough
    rw [poll, Logged.value_bind]
    rcases cases with ⟨w', run, h', -⟩ | ⟨values, run, -⟩ | ⟨e, run, first⟩
    · rw [run]
      refine ⟨fun join' waits => ?_, by rintro _ ⟨⟩⟩
      cases waits
      exact .run many h'
    · rw [run]
      exact ⟨by rintro _ ⟨⟩, by rintro _ ⟨⟩⟩
    · rw [run]
      refine ⟨by rintro _ ⟨⟩, fun _ failed => ?_⟩
      cases failed
      rw [FailsMet, if_neg (Nat.not_le_of_lt many)]
      exact first

/-- **A poll of a join** whose tasks wait as often as given leaves it with less to wait
for, or gathers all results, or meets the failure that the number of tasks decides
on. -/
theorem poll_cases (h : join.Timed kind base top waits out total) (hb : base.Below top)
    (hR : Between base top R) :
    (∃ join', (join.poll kind R).value = .pending join'
        ∧ join'.Timed kind base top waits out total
        ∧ join'.waits kind base top total < join.waits kind base top total)
      ∨ (∃ values, (join.poll kind R).value = .ready (.ok values)
        ∧ Gathers out total values)
      ∨ ∃ e, (join.poll kind R).value = .ready (.error e) ∧ FailsMet waits out total e := by
  obtain ⟨pending, failed⟩ := h.poll_value hb hR
  rcases h.orderly.poll_cases hb hR with
    ⟨join', poll, -, less⟩ | ⟨values, poll, all⟩ | ⟨e, poll, -⟩
  · exact .inl ⟨join', poll, pending join' poll, less⟩
  · exact .inr (.inl ⟨values, poll, all⟩)
  · exact .inr (.inr ⟨e, poll, failed e poll⟩)

end Timed

end Join

end DynValue.Schedule
