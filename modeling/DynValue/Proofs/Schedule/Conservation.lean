import DynValue.Proofs.Schedule.Numbering
import Mathlib.Algebra.GroupWithZero.Nat

/-!
# What is begun and not over

Some reports say that something has begun, and others that it is over. A
task is under a **load**: how much it has begun that is not over. A course
conserves the load if each step changes it by what is reported, and the end
leaves nothing begun (`Course.Conserves`).

A scheduler is under the load of its tasks together, and conserves it if
they do (`Window.course_conserves`, `Join.course_conserves`). So the load of
a state says what the reports say, at every moment
(`Course.Conserves.moment`).
-/

namespace DynValue.Schedule

variable {ε φ τ α : Type} {begins finishes : ε → Bool} {load : τ → Nat} {sound : τ → Prop}
  {k : Course φ τ α ε}

/-- **Reports that close a load**: they begin nothing, and all of it is over
by them. -/
structure Closes (begins finishes : ε → Bool) (load : Nat) (reports : List ε) : Prop where
  begins_eq : reports.countP begins = 0
  finishes_eq : reports.countP finishes = load

namespace Closes

variable {n m : Nat} {reports more : List ε}

theorem nil : Closes begins finishes 0 [] := ⟨rfl, rfl⟩

theorem append (h : Closes begins finishes n reports) (h' : Closes begins finishes m more) :
    Closes begins finishes (n + m) (reports ++ more) := by
  refine ⟨?_, ?_⟩
  · rw [List.countP_append, h.begins_eq, h'.begins_eq]
  · rw [List.countP_append, h.finishes_eq, h'.finishes_eq]

/-- So after them there is no load. -/
theorem eq_zero_add (h : Closes begins finishes n reports) :
    n + reports.countP begins = 0 + reports.countP finishes := by
  rw [h.begins_eq, h.finishes_eq, Nat.add_comm]

theorem flatMap {β : Type} {weight : β → Nat} {report : β → List ε} {bs : List β}
    (h : ∀ b ∈ bs, Closes begins finishes (weight b) (report b)) :
    Closes begins finishes (bs.map weight).sum (bs.flatMap report) := by
  induction bs with
  | nil => exact nil
  | cons b bs ih =>
    rw [List.map_cons, List.sum_cons, List.flatMap_cons]
    exact (h b List.mem_cons_self).append (ih fun b mem => h b (List.mem_cons_of_mem _ mem))

end Closes

namespace Course

/-- **A course conserves a load** of sound tasks. A step that begins something
does nothing else, and reports nothing else. -/
structure Conserves (k : Course φ τ α ε) (begins finishes : ε → Bool) (load : τ → Nat)
    (sound : τ → Prop) : Prop where
  keeps : ∀ {t r t'}, sound t → k.moves t r t' → sound t'
  moves : ∀ {t r t'}, sound t → k.moves t r t' →
    load t + r.countP begins = load t' + r.countP finishes
  alone : ∀ {t r t'}, sound t → k.moves t r t' → r.countP begins = 0 ∨ r.length = 1
  ends : ∀ {t r o}, sound t → k.ends t r o → Closes begins finishes (load t) r
  drops : ∀ {t}, sound t → Closes begins finishes (load t) (k.drops t)

namespace Conserves

variable {start s : τ} {reports : List ε}

theorem trail (h : k.Conserves begins finishes load sound) (hs : sound start)
    (path : Trail k.moves start reports s) :
    sound s ∧ load start + reports.countP begins = load s + reports.countP finishes := by
  induction path with
  | refl => exact ⟨hs, rfl⟩
  | tail _ last ih =>
    refine ⟨h.keeps ih.1 last, ?_⟩
    have step := h.moves ih.1 last
    rw [List.countP_append, List.countP_append, ← Nat.add_assoc, ih.2, Nat.add_right_comm, step,
      Nat.add_assoc, Nat.add_comm (List.countP finishes _)]

/-- **At every moment** no more is begun and not over than the load of the
state, or of the next one if a step has reported all it has to. -/
theorem moment (h : k.Conserves begins finishes load sound) (hs : sound start)
    (m : k.Moment start reports s) :
    ∃ s, k.Moment start reports s ∧ sound s
      ∧ load start + reports.countP begins ≤ load s + reports.countP finishes := by
  -- part of a report that begins nothing is over no later than the whole
  have part_le : ∀ {s : τ} {before part whole : List ε}, Trail k.moves start before s →
      part <+: whole → whole.countP begins = 0 →
      load start + (before ++ part).countP begins ≤ load s + (before ++ part).countP finishes := by
    intro s before part whole path le none
    have zero : part.countP begins = 0 := Nat.le_zero.1 (none ▸ le.sublist.countP_le)
    rw [List.countP_append, List.countP_append, zero, Nat.add_zero, (h.trail hs path).2]
    exact Nat.add_le_add_left (Nat.le_add_right _ _) _
  -- a step that begins something has reported nothing of it or all
  cases m with
  | between path => exact ⟨s, .between path, (h.trail hs path).1, (h.trail hs path).2.le⟩
  | @within s s' before part whole path step le =>
    obtain ⟨sound, -⟩ := h.trail hs path
    rcases h.alone sound step with none | one
    · exact ⟨s, .within path step le, sound, part_le path le none⟩
    · obtain ⟨event, rfl⟩ := List.length_eq_one_iff.1 one
      rcases List.prefix_cons_iff.1 le with rfl | ⟨rest, rfl, nil⟩
      · rw [List.append_nil]
        exact ⟨s, .between path, sound, (h.trail hs path).2.le⟩
      · have after := path.tail step
        rw [List.prefix_nil.1 nil]
        exact ⟨s', .between after, (h.trail hs after).1, (h.trail hs after).2.le⟩
  | @ending s before part whole o path ends le =>
    obtain ⟨sound, -⟩ := h.trail hs path
    exact ⟨s, .ending path ends le, sound, part_le path le (h.ends sound ends).begins_eq⟩

end Conserves

end Course

/-! ## Many tasks -/

/-- **What a scheduler does to its tasks** in a step: one is added, moves or
finishes, or they change places. -/
inductive Change (k : Course φ τ α ε) (fresh : τ → Prop) : List τ → List ε → List τ → Prop
  | adds {tasks : List τ} {t : τ} (new : fresh t) : Change k fresh tasks [] (tasks ++ [t])
  | works {before behind : List τ} {t t' : τ} {r : List ε} (move : k.moves t r t') :
      Change k fresh (before ++ t :: behind) r (before ++ t' :: behind)
  | finishes {before behind : List τ} {t : τ} {r : List ε} {o : Except φ α}
      (ends : k.ends t r o) : Change k fresh (before ++ t :: behind) r (before ++ behind)
  | turns {tasks tasks' : List τ} (perm : tasks.Perm tasks') : Change k fresh tasks [] tasks'

namespace Course.Conserves

variable {fresh : τ → Prop} {tasks tasks' : List τ} {reports : List ε}

theorem sound_change (h : k.Conserves begins finishes load sound)
    (new : ∀ t, fresh t → sound t) (hs : ∀ t ∈ tasks, sound t)
    (c : Change k fresh tasks reports tasks') : ∀ t ∈ tasks', sound t := by
  intro s mem
  cases c with
  | adds first =>
    rcases List.mem_append.1 mem with mem | mem
    · exact hs s mem
    · rw [List.mem_singleton.1 mem]
      exact new _ first
  | works move =>
    rcases List.mem_append.1 mem with mem | mem
    · exact hs s (List.mem_append_left _ mem)
    · rcases List.mem_cons.1 mem with rfl | mem
      · exact h.keeps (hs _ (List.mem_append_right _ List.mem_cons_self)) move
      · exact hs s (List.mem_append_right _ (List.mem_cons_of_mem _ mem))
  | finishes ends =>
    refine hs s (List.mem_append.2 ((List.mem_append.1 mem).imp_right ?_))
    exact List.mem_cons_of_mem _
  | turns perm => exact hs s (perm.mem_iff.2 mem)

theorem load_change (h : k.Conserves begins finishes load sound)
    (new : ∀ t, fresh t → load t = 0) (hs : ∀ t ∈ tasks, sound t)
    (c : Change k fresh tasks reports tasks') :
    (tasks.map load).sum + reports.countP begins
      = (tasks'.map load).sum + reports.countP finishes := by
  cases c with
  | adds first => simp [new _ first]
  | works move =>
    have step := h.moves (hs _ (List.mem_append_right _ List.mem_cons_self)) move
    simp only [List.map_append, List.map_cons, List.sum_append, List.sum_cons]
    omega
  | finishes ends =>
    obtain ⟨none, all⟩ := h.ends (hs _ (List.mem_append_right _ List.mem_cons_self)) ends
    simp only [List.map_append, List.map_cons, List.sum_append, List.sum_cons]
    omega
  | turns perm => exact congrArg (· + 0) (perm.map load).sum_nat

theorem alone_change (h : k.Conserves begins finishes load sound) (hs : ∀ t ∈ tasks, sound t)
    (c : Change k fresh tasks reports tasks') :
    reports.countP begins = 0 ∨ reports.length = 1 := by
  cases c with
  | adds first => exact .inl rfl
  | works move => exact h.alone (hs _ (List.mem_append_right _ List.mem_cons_self)) move
  | finishes ends =>
    exact .inl (h.ends (hs _ (List.mem_append_right _ List.mem_cons_self)) ends).begins_eq
  | turns perm => exact .inl rfl

theorem closes_tasks (h : k.Conserves begins finishes load sound) (hs : ∀ t ∈ tasks, sound t) :
    Closes begins finishes (tasks.map load).sum (tasks.flatMap k.drops) :=
  .flatMap fun t mem => h.drops (hs t mem)

end Course.Conserves

namespace Window

variable {width : Nat} {supply : Nat → Option τ}

/-- The tasks of a run that wait. -/
def tasks (w : Window φ τ α) : List τ := w.queue.waiting.map Prod.snd

theorem tasks_ofList (ts : List τ) : (ofList ts : Window φ τ α).tasks = ts := by
  show (ts.zipIdx.map fun t => (t.2, t.1)).map Prod.snd = ts
  rw [List.map_map]
  exact List.zipIdx_map_fst 0 ts

theorem dropAll_waiting (w : Window φ τ α) :
    k.dropAll w.queue.waiting = w.tasks.flatMap k.drops :=
  (List.flatMap_map Prod.snd k.drops w.queue.waiting).symm

theorem closes_dropAll (h : k.Conserves begins finishes load sound) {w : Window φ τ α}
    (hs : ∀ t ∈ w.tasks, sound t) :
    Closes begins finishes (w.tasks.map load).sum (k.dropAll w.queue.waiting) := by
  rw [dropAll_waiting]
  exact h.closes_tasks hs

theorem Step.change {w w' : Window φ τ α} {reports : List ε}
    (step : Step k width supply w reports w') :
    Change k (fun t => ∃ n, supply n = some t) w.tasks reports w'.tasks := by
  have at_front : ∀ {n : Nat} {t : τ} {others : List (Nat × τ)},
      w.queue.waiting = (n, t) :: others → w.tasks = [] ++ t :: others.map Prod.snd :=
    fun front => congrArg (List.map Prod.snd) front
  cases step with
  | @begins t room next =>
    show Change k _ w.tasks [] ((w.queue.waiting ++ [(w.begun, t)]).map Prod.snd)
    rw [List.map_append]
    exact .adds ⟨_, next⟩
  | works front move =>
    rw [at_front front]
    exact .works move
  | @turns n t others front rests =>
    have back : List.Perm ([(n, t)] ++ others) (others ++ [(n, t)]) := List.perm_append_comm
    rw [at_front front]
    exact .turns (back.map Prod.snd)
  | finishes front ends =>
    rw [at_front front]
    exact .finishes ends
  | delivers turn =>
    obtain ⟨-, rfl⟩ := Queue.takeEarly?_eq_some turn
    exact .turns (.refl _)

/-- **A run conserves the load** of its tasks. -/
theorem course_conserves (h : k.Conserves begins finishes load sound)
    (fresh : ∀ n t, supply n = some t → sound t ∧ load t = 0) :
    (course k width supply : Course φ (Window φ τ α) (Array α) ε).Conserves begins finishes
      (fun w => (w.tasks.map load).sum) (fun w => ∀ t ∈ w.tasks, sound t) where
  keeps hs step := h.sound_change (fun t ⟨n, next⟩ => (fresh n t next).1) hs step.change
  moves hs step := h.load_change (fun t ⟨n, next⟩ => (fresh n t next).2) hs step.change
  alone hs step := h.alone_change hs step.change
  ends {w _ _} hs stops := by
    cases stops with
    | finishes empty missing full =>
      rw [tasks, empty]
      exact .nil
    | fails turn =>
      obtain ⟨-, rfl⟩ := Queue.takeEarly?_eq_some turn
      exact closes_dropAll h hs
  drops hs := closes_dropAll h hs

end Window

namespace Join

/-- The tasks among slots that are running. -/
def running (slots : List (Slot τ α)) : List τ :=
  slots.filterMap fun
    | .running t => some t
    | .done _ => none

/-- The tasks of a join that are not finished. -/
def tasks : Join φ τ α → List τ
  | .rounds slots => running slots
  | .run w => w.tasks

theorem running_append (before behind : List (Slot τ α)) :
    running (before ++ behind) = running before ++ running behind :=
  List.filterMap_append

/-- Tasks that are waited for together are all unfinished at first. -/
theorem tasks_ofList (ts : List τ) : (ofList ts : Join φ τ α).tasks = ts := by
  unfold ofList
  split
  · show running (ts.map .running : List (Slot τ α)) = ts
    rw [running, List.filterMap_map]
    exact List.filterMap_some
  · exact Window.tasks_ofList ts

theorem dropSlots_eq (slots : List (Slot τ α)) :
    k.dropSlots slots = (running slots).flatMap k.drops := by
  induction slots with
  | nil => rfl
  | cons slot slots ih =>
    cases slot with
    | running t =>
      show k.drops t ++ k.dropSlots slots = k.drops t ++ (running slots).flatMap k.drops
      rw [ih]
    | done a => exact ih

theorem Step.change {join join' : Join φ τ α} {reports : List ε}
    (step : Step k join reports join') :
    Change k (fun _ => False) join.tasks reports join'.tasks := by
  cases step with
  | works move =>
    show Change k _ (running (_ ++ _ :: _)) _ (running (_ ++ _ :: _))
    rw [running_append, running_append]
    exact .works move
  | finishes ends =>
    show Change k _ (running (_ ++ _ :: _)) _ (running (_ ++ _ :: _))
    rw [running_append, running_append]
    exact .finishes ends
  | run step =>
    have none : (fun t : τ => ∃ n : Nat, (fun _ => none : Nat → Option τ) n = some t)
        = fun _ => False := funext fun t => eq_false fun ⟨_, h⟩ => nomatch h
    have change := step.change
    rwa [none] at change

/-- **A join conserves the load** of its tasks. -/
theorem course_conserves (h : k.Conserves begins finishes load sound) :
    (course k : Course φ (Join φ τ α) (List α) ε).Conserves begins finishes
      (fun join => (join.tasks.map load).sum) (fun join => ∀ t ∈ join.tasks, sound t) where
  keeps hs step := h.sound_change (fun _ => False.elim) hs step.change
  moves hs step := h.load_change (fun _ => False.elim) hs step.change
  alone hs step := h.alone_change hs step.change
  ends {join _ _} hs stops := by
    cases stops with
    | completes results =>
      have none : running (results.map .done : List (Slot τ α)) = [] := by
        rw [running, List.filterMap_map]
        exact List.filterMap_eq_nil_iff.2 (fun a _ => rfl)
      rw [tasks, none]
      exact .nil
    | @fails before behind t r e ends =>
      have all : running (before ++ .running t :: behind)
          = running before ++ t :: running behind := running_append _ _
      rw [tasks, all] at hs ⊢
      have others : ∀ s ∈ running before ++ running behind, sound s :=
        h.sound_change (fun _ => id) hs (.finishes ends)
      have closed := (h.ends (hs t (List.mem_append_right _ List.mem_cons_self)) ends).append
        (h.closes_tasks others)
      rw [List.flatMap_append, ← dropSlots_eq, ← dropSlots_eq] at closed
      have same : ((running before ++ t :: running behind).map load).sum
          = load t + ((running before ++ running behind).map load).sum := by
        simp only [List.map_append, List.map_cons, List.sum_append, List.sum_cons]
        omega
      rwa [same]
    | run stops =>
      refine (Window.course_conserves h fun _ t none => ?_).ends hs stops
      exact absurd none.symm (Option.some_ne_none t)
  drops {join} hs := by
    cases join with
    | rounds slots =>
      show Closes begins finishes _ (k.dropSlots slots)
      rw [dropSlots_eq]
      exact h.closes_tasks hs
    | run w => exact Window.closes_dropAll h hs

end Join

end DynValue.Schedule
