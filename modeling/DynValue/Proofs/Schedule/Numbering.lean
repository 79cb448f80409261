import DynValue.Proofs.Schedule.Steps
import Mathlib.Data.List.Range
import Mathlib.Order.Lattice

/-!
# Which tasks are under way

The tasks of a run are numbered as they are begun, and the results are
delivered by number. So at any moment the tasks that are begun and not
delivered are exactly those from the number of results delivered up to the
number of tasks begun (`Window.Numbered`), each of them once.

Two things follow. A window never has more tasks under way than its width,
since there is room for a task only below it (`Window.Numbered.size_eq`,
`Window.Step.size_le`). And the fuel of a poll is enough: each of its rounds
delivers the result of a task that was begun, so the tasks run out before
the rounds do (`Window.Within.delivered_ne`).
-/

namespace DynValue.Schedule

variable {ε ε' φ τ α : Type} {kind : TaskKind ε φ τ α}

namespace Queue

variable {held : RefSet} {q q' : Queue φ τ α}

/-- The numbers of the tasks begun and not delivered. -/
def numbers (q : Queue φ τ α) : List Nat := q.waiting.map Prod.fst ++ q.early.map Prod.fst

theorem length_numbers (q : Queue φ τ α) : q.numbers.length = q.size := by
  rw [numbers, List.length_append, List.length_map, List.length_map]
  rfl

/-- **Taking the outcome whose turn it is** leaves the others. -/
theorem takeEarly?_eq_some {outcome : Except φ α} (h : q.takeEarly? = some (outcome, q')) :
    (q.next, outcome) ∈ q.early
      ∧ q' = { q with
          early := q.early.filter fun r => r.1 != q.next
          next := q.next + 1 } := by
  unfold takeEarly? at h
  split at h
  · rename_i r found
    obtain ⟨rfl, rfl⟩ := Prod.mk.inj (Option.some.inj h)
    have number : r.1 = q.next := by simpa using List.find?_some found
    exact ⟨number ▸ List.mem_of_find?_eq_some found, rfl⟩
  · cases h

theorem Move.next_eq {reports : List ε} (h : Move kind held q reports q') :
    q'.next = q.next := by
  cases h with
  | waits h => obtain ⟨-, -⟩ := h; rfl
  | finishes h => obtain ⟨-, -⟩ := h; rfl

end Queue

namespace Window

variable {width : Nat} {supply : Nat → Option τ} {held : RefSet} {w w' : Window φ τ α}

/-- **The tasks begun and not delivered** are those from the next result to
the next task, each once. -/
structure Numbered (w : Window φ τ α) : Prop where
  /-- The result to come next is the first one not delivered. -/
  turn : w.queue.next = w.delivered.size
  /-- No result comes before its task. -/
  delivered_le : w.delivered.size ≤ w.begun
  /-- Begun and not delivered. -/
  perm : w.queue.numbers.Perm
    (List.range' w.delivered.size (w.begun - w.delivered.size))

namespace Numbered

theorem start : (start : Window φ τ α).Numbered := ⟨rfl, Nat.le_refl _, List.Perm.refl _⟩

theorem ofList (tasks : List τ) : (ofList tasks : Window φ τ α).Numbered where
  turn := rfl
  delivered_le := Nat.zero_le _
  perm := by
    have h : (tasks.zipIdx.map fun t => (t.2, t.1)).map Prod.fst = List.range' 0 tasks.length := by
      rw [List.map_map]
      exact List.zipIdx_map_snd 0 tasks
    show List.Perm (((tasks.zipIdx.map fun t => (t.2, t.1)).map Prod.fst) ++ []) _
    rw [h, List.append_nil]
    exact List.Perm.refl _

theorem size_eq (h : w.Numbered) : w.delivered.size + w.queue.size = w.begun := by
  have := h.perm.length_eq
  rw [Queue.length_numbers, List.length_range'] at this
  rw [this]
  exact Nat.add_sub_of_le h.delivered_le

theorem mem_numbers (h : w.Numbered) {n : Nat} :
    n ∈ w.queue.numbers ↔ w.delivered.size ≤ n ∧ n < w.begun := by
  have := h.delivered_le
  rw [h.perm.mem_iff, List.mem_range'_1]
  omega

theorem nodup (h : w.Numbered) : w.queue.numbers.Nodup :=
  h.perm.nodup_iff.2 List.nodup_range'

/-- **A step keeps the numbering.** -/
theorem step {k : Course φ τ α ε'} {reports : List ε'} (h : w.Numbered)
    (s : Step k width supply w reports w') : w'.Numbered := by
  have le := h.delivered_le
  cases s with
  | @begins task room next =>
    refine ⟨h.turn, Nat.le_succ_of_le le, ?_⟩
    -- the new task comes behind the waiting ones and has the next number
    show List.Perm
      ((w.queue.waiting ++ [(w.begun, task)]).map Prod.fst ++ w.queue.early.map Prod.fst)
      (List.range' w.delivered.size (w.begun + 1 - w.delivered.size))
    rw [Nat.sub_add_comm le, List.range'_concat, Nat.one_mul, Nat.add_sub_of_le le,
      List.map_append, List.append_assoc]
    refine (List.perm_append_comm_assoc _ _ _).trans (List.perm_append_comm.trans ?_)
    exact List.Perm.append_right _ h.perm
  | works front move =>
    refine ⟨h.turn, le, List.Perm.trans ?_ h.perm⟩
    unfold Queue.numbers
    rw [front]
    exact List.Perm.refl _
  | turns front rests =>
    refine ⟨h.turn, le, List.Perm.trans ?_ h.perm⟩
    unfold Queue.numbers
    rw [front, List.map_append, List.map_cons]
    exact List.Perm.append_right _ List.perm_append_comm
  | finishes front ends =>
    refine ⟨h.turn, le, List.Perm.trans ?_ h.perm⟩
    unfold Queue.numbers
    rw [front]
    exact List.perm_middle
  | @delivers a q turn =>
    obtain ⟨mem, rfl⟩ := Queue.takeEarly?_eq_some turn
    have here : w.queue.next < w.begun :=
      (h.mem_numbers.1 (List.mem_append_right _ (List.mem_map_of_mem mem))).2
    have size : (w.delivered.push a).size = w.queue.next + 1 := by
      rw [Array.size_push, h.turn]
    refine ⟨size.symm, size.le.trans here, ?_⟩
    -- no waiting task has the number of an outcome that is kept
    have waiting : ∀ n ∈ w.queue.waiting.map Prod.fst, n ≠ w.queue.next := by
      intro n hn same
      exact (List.nodup_append.1 h.nodup).2.2 n hn _ (List.mem_map_of_mem mem) same
    have perm := h.perm.filter (fun n => n != w.queue.next)
    rw [← h.turn, Queue.numbers, List.filter_append,
      List.filter_eq_self.2 (by simpa using waiting), List.filter_map] at perm
    show List.Perm (_ ++ (w.queue.early.filter fun r => r.1 != w.queue.next).map Prod.fst) _
    refine perm.trans (List.Perm.of_eq ?_)
    show List.filter _ _ = List.range' (w.delivered.push a).size
      (w.begun - (w.delivered.push a).size)
    obtain ⟨k, hk⟩ : ∃ k, w.begun - w.queue.next = k + 1 :=
      ⟨w.begun - w.queue.next - 1, by omega⟩
    have rest : w.begun - (w.queue.next + 1) = k := by omega
    rw [size, hk, rest, List.range'_succ, List.filter_cons_of_neg (by simp)]
    refine List.filter_eq_self.2 (fun n hn => ?_)
    have := (List.mem_range'_1.1 hn).1
    simpa using Nat.ne_of_gt this

/-- A move keeps the numbering, as a trail of steps. -/
theorem move {reports : List ε} (h : w.Numbered)
    (m : Move kind width supply held w reports w') : w'.Numbered := by
  obtain ⟨r, -, path⟩ := move_covered (kind.course_covers fun _ => id_eq _) m
  exact path.invariant (fun h s => h.step s) h

/-- **Every moment of a run is numbered.** -/
theorem trail {reports : List ε} (h : w.Numbered)
    (path : Trail (Move kind width supply held) w reports w') : w'.Numbered :=
  path.invariant (fun h m => h.move m) h

/-- **When nothing is under way** everything begun is delivered. -/
theorem delivered_eq_begun (h : w.Numbered) (empty : w.queue.waiting = [])
    (missing : w.queue.takeEarly? = none) : w.delivered.size = w.begun := by
  refine le_antisymm h.delivered_le (not_lt.1 (fun less => ?_))
  have mem := h.mem_numbers.2 ⟨le_refl _, less⟩
  rw [Queue.numbers, empty, List.map_nil, List.nil_append] at mem
  obtain ⟨r, hr, same⟩ := List.mem_map.1 mem
  exact Queue.takeEarly?_eq_none_iff.1 missing r hr (same.trans h.turn.symm)

end Numbered

/-! ## The width -/

/-- **A window stays within its width**: a task is begun only while there is
room. -/
theorem Step.size_le {k : Course φ τ α ε'} {reports : List ε'}
    (s : Step k width supply w reports w') (h : w.queue.size ≤ width) :
    w'.queue.size ≤ width := by
  cases s with
  | begins room next => exact (Queue.size_push _ _ _).trans_le room
  | works front move =>
    rw [Queue.size, front] at h
    exact h
  | turns front rests =>
    rw [Queue.size, front] at h
    rw [Queue.size, List.length_append]
    exact h
  | finishes front ends =>
    rw [Queue.size, front, List.length_cons, Nat.add_right_comm, Nat.add_assoc] at h
    exact h
  | delivers turn =>
    obtain ⟨-, rfl⟩ := Queue.takeEarly?_eq_some turn
    exact (Nat.add_le_add_left (List.length_filter_le _ _) _).trans h

/-! ## The fuel -/

/-- **The tasks of a run are numbered below a total**, those begun among
them. -/
structure Within (total : Nat) (supply : Nat → Option τ) (w : Window φ τ α) : Prop where
  /-- Every task begun is one of them. -/
  begun_le : w.begun ≤ total
  /-- There is no other to begin. -/
  supply_eq_none : ∀ n, total ≤ n → supply n = none

namespace Within

variable {total : Nat}

theorem step {k : Course φ τ α ε'} {reports : List ε'} (h : w.Within total supply)
    (s : Step k width supply w reports w') : w'.Within total supply := by
  refine ⟨?_, h.supply_eq_none⟩
  cases s with
  | begins room next =>
    refine not_lt.1 (fun less => ?_)
    rw [h.supply_eq_none _ (Nat.le_of_lt_succ less)] at next
    cases next
  | works front move => exact h.begun_le
  | turns front rests => exact h.begun_le
  | finishes front ends => exact h.begun_le
  | delivers turn => exact h.begun_le

theorem move {reports : List ε} (h : w.Within total supply)
    (m : Move kind width supply held w reports w') : w'.Within total supply := by
  obtain ⟨r, -, path⟩ := move_covered (kind.course_covers fun _ => id_eq _) m
  exact path.invariant (fun h s => h.step s) h

theorem trail {reports : List ε} (h : w.Within total supply)
    (path : Trail (Move kind width supply held) w reports w') : w'.Within total supply :=
  path.invariant (fun h m => h.move m) h

/-- **One round more than results to come** is never used up. -/
theorem delivered_ne {reports : List ε} {n : Nat} (h : w.Within total supply)
    (hn : w.Numbered) (path : Trail (Move kind width supply held) w reports w')
    (enough : total - w.delivered.size < n) : w'.delivered.size ≠ w.delivered.size + n := by
  have := (h.trail path).begun_le
  have := (hn.trail path).delivered_le
  omega

end Within

end Window

end DynValue.Schedule
