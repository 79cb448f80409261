import DynValue.Proofs.Schedule.Numbering
import DynValue.Proofs.Schedule.Conservation
import Mathlib.Algebra.Order.Group.Multiset
import Mathlib.Tactic.Abel

/-!
# The lives of tasks

A task lives from when it is begun until it finishes or is dropped. In a
scheduler the lives of many tasks run side by side and their reports come
mixed, but each report is that of one life: taken apart, what a scheduler has
reported by its end is what its tasks have reported in their lives, no more
tasks than it was given (`Window.exists_lives`, `Join.exists_lives`). And a
scheduler that fails does so with the failure that one of these lives ended in.

So whatever holds of the lives of tasks, and does not depend on the order of
reports of different tasks, holds of what a scheduler reports. A load that is
conserved does depend on the order, and is settled by the end of a life
(`Course.Conserves.life`).
-/

namespace DynValue.Schedule

variable {ε φ τ α : Type}

/-- **A trail begins with a step**, or has none. -/
theorem Trail.cases_head {σ : Type} {step : σ → List ε → σ → Prop} {s s' : σ}
    {reports : List ε} (path : Trail step s reports s') :
    reports = [] ∧ s' = s
      ∨ ∃ r s₁ rest, step s r s₁ ∧ Trail step s₁ rest s' ∧ reports = r ++ rest := by
  induction path with
  | refl => exact .inl ⟨rfl, rfl⟩
  | @tail s₁ s₂ reports more path last ih =>
    rcases ih with ⟨rfl, rfl⟩ | ⟨r, s', rest, first, later, rfl⟩
    · exact .inr ⟨more, s₂, [], last, .refl s₂, (List.append_nil _).symm⟩
    · exact .inr ⟨r, s', rest ++ more, first, later.tail last, List.append_assoc ..⟩

namespace Course

/-! ## One task -/

/-- **The life of a task** from a state on: what it reports until it finishes with
an outcome, or is dropped without. -/
inductive Life (k : Course φ τ α ε) (t : τ) : List ε → Option (Except φ α) → Prop
  | ended {t' : τ} {reports last : List ε} {o : Except φ α} (path : Trail k.moves t reports t')
      (ends : k.ends t' last o) : Life k t (reports ++ last) (some o)
  | dropped {t' : τ} {reports : List ε} (path : Trail k.moves t reports t') :
      Life k t (reports ++ k.drops t') none

section Lives

variable (k : Course φ τ α ε) (born : List ε → τ → Prop)

/-- **The life of a task from its birth**, in which something may be reported. -/
inductive Lifetime : List ε → Option (Except φ α) → Prop
  | intro {first reports : List ε} {t : τ} {o : Option (Except φ α)} (birth : born first t)
      (life : Life k t reports o) : Lifetime (first ++ reports) o

/-- **A task under way**, with all that it has reported. -/
inductive Lived : List ε → τ → Prop
  | intro {first reports : List ε} {t t' : τ} (birth : born first t)
      (path : Trail k.moves t reports t') : Lived (first ++ reports) t'

/-- **What tasks have reported together**, taken apart: each report is one of
some life, and so is the failure if it is one that they came to. -/
structure MadeOf {β : Type} (reports : List ε) (o : Option (Except φ β))
    (lives : List (List ε × Option (Except φ α))) : Prop where
  each : ∀ life ∈ lives, Lifetime k born life.1 life.2
  perm : reports.Perm (lives.flatMap Prod.fst)
  fails : ∀ e, o = some (.error e) → ∃ life, (life, some (.error e)) ∈ lives

/-- **The tasks of a scheduler account for its reports**: those under way, and
those that are over with their outcomes. -/
structure Accounts (tasks : List τ) (finished : List (List ε × Except φ α)) (reports : List ε) :
    Prop where
  ended : ∀ life ∈ finished, Lifetime k born life.1 (some life.2)
  underWay : ∃ under : List (List ε × τ), (∀ u ∈ under, Lived k born u.1 u.2)
    ∧ (under.map Prod.snd).Perm tasks
    ∧ reports.Perm (under.flatMap Prod.fst ++ finished.flatMap Prod.fst)

end Lives

variable {k : Course φ τ α ε} {born : List ε → τ → Prop} {reports r : List ε} {t t' : τ}
  {o : Option (Except φ α)}

/-- What comes after some steps goes on with the life. -/
theorem Life.after (path : Trail k.moves t r t') (life : k.Life t' reports o) :
    k.Life t (r ++ reports) o := by
  cases life with
  | ended rest ends =>
    rw [← List.append_assoc]
    exact .ended (path.trans rest) ends
  | dropped rest =>
    rw [← List.append_assoc]
    exact .dropped (path.trans rest)

/-- **What comes first in a life**: its end, or a step. -/
theorem Life.cases_head (life : k.Life t reports o) :
    o = none ∧ reports = k.drops t
      ∨ (∃ o', o = some o' ∧ k.ends t reports o')
      ∨ ∃ r t' rest, k.moves t r t' ∧ k.Life t' rest o ∧ reports = r ++ rest := by
  cases life with
  | ended path ends =>
    rcases path.cases_head with ⟨rfl, rfl⟩ | ⟨r, t₁, rest, first, later, rfl⟩
    · exact .inr (.inl ⟨_, rfl, ends⟩)
    · exact .inr (.inr ⟨r, t₁, _, first, .ended later ends, List.append_assoc ..⟩)
  | dropped path =>
    rcases path.cases_head with ⟨rfl, rfl⟩ | ⟨r, t₁, rest, first, later, rfl⟩
    · exact .inl ⟨rfl, rfl⟩
    · exact .inr (.inr ⟨r, t₁, _, first, .dropped later, List.append_assoc ..⟩)

theorem Lived.of_born (birth : born reports t) : k.Lived born reports t := by
  rw [← List.append_nil reports]
  exact .intro birth (.refl t)

theorem Lived.move (h : k.Lived born reports t) (move : k.moves t r t') :
    k.Lived born (reports ++ r) t' := by
  obtain ⟨birth, path⟩ := h
  rw [List.append_assoc]
  exact .intro birth (path.tail move)

theorem Lived.ended {o : Except φ α} (h : k.Lived born reports t) (ends : k.ends t r o) :
    k.Lifetime born (reports ++ r) (some o) := by
  obtain ⟨birth, path⟩ := h
  rw [List.append_assoc]
  exact .intro birth (.ended path ends)

theorem Lived.dropped (h : k.Lived born reports t) :
    k.Lifetime born (reports ++ k.drops t) none := by
  obtain ⟨birth, path⟩ := h
  rw [List.append_assoc]
  exact .intro birth (.dropped path)

/-- What tasks have reported does not depend on what becomes of their results. -/
theorem MadeOf.map {β γ : Type} {o : Option (Except φ β)} (f : β → γ)
    {lives : List (List ε × Option (Except φ α))} (made : k.MadeOf born reports o lives) :
    k.MadeOf born reports (o.map (Except.map f)) lives where
  each := made.each
  perm := made.perm
  fails e failed := by
    refine made.fails e ?_
    rcases o with _ | (e' | b)
    · cases failed
    · obtain rfl : e' = e := Except.error.inj (Option.some.inj failed)
      rfl
    · cases failed

namespace Conserves

variable {begins finishes : ε → Bool} {load : τ → Nat} {sound : τ → Prop}

/-- **Nothing is over that was not begun**, at any moment. -/
theorem finishes_le (h : k.Conserves begins finishes load sound) (hs : sound t)
    (path : Trail k.moves t reports t') {part : List ε} (le : part <+: reports) :
    part.countP finishes ≤ load t + part.countP begins := by
  obtain ⟨before, s, rest, rfl, path, rfl | ⟨whole, s', step, le⟩⟩ := path.exists_of_prefix le
  · rw [List.append_nil]
    exact (h.trail hs path).2.symm ▸ Nat.le_add_left _ _
  · obtain ⟨sound, conserved⟩ := h.trail hs path
    have moved := h.moves sound step
    rw [List.countP_append, List.countP_append]
    -- a step that begins something reports nothing else
    rcases h.alone sound step with none | one
    · have part_le : rest.countP finishes ≤ whole.countP finishes := le.sublist.countP_le
      omega
    · obtain ⟨event, rfl⟩ := List.length_eq_one_iff.1 one
      rcases List.prefix_cons_iff.1 le with rfl | ⟨rest, rfl, nil⟩
      · exact conserved.symm ▸ Nat.le_add_left _ _
      · rw [List.prefix_nil.1 nil]
        omega

/-- **By the end of its life** a task has ended all that it has begun, whether it
finished or was dropped, and never more than that before. -/
theorem life (h : k.Conserves begins finishes load sound) (hs : sound t)
    (life : k.Life t reports o) :
    (∀ part, part <+: reports → part.countP finishes ≤ load t + part.countP begins)
    ∧ load t + reports.countP begins = reports.countP finishes := by
  have closing {t' : τ} {before last : List ε} (path : Trail k.moves t before t')
      (closed : Closes begins finishes (load t') last) :
      (∀ part, part <+: before ++ last → part.countP finishes ≤ load t + part.countP begins)
      ∧ load t + (before ++ last).countP begins = (before ++ last).countP finishes := by
    obtain ⟨-, conserved⟩ := h.trail hs path
    refine ⟨fun part le => ?_, ?_⟩
    · rcases List.prefix_or_prefix_of_prefix le (List.prefix_append _ _) with within | ⟨rest, rfl⟩
      · exact h.finishes_le hs path within
      · have part_le : rest.countP finishes ≤ last.countP finishes :=
          ((List.prefix_append_right_inj _).1 le).sublist.countP_le
        rw [closed.finishes_eq] at part_le
        rw [List.countP_append, List.countP_append]
        omega
    · rw [List.countP_append, List.countP_append, closed.begins_eq, closed.finishes_eq,
        Nat.add_zero, conserved, Nat.add_comm]
  cases life with
  | ended path ends => exact closing path (h.ends (h.trail hs path).1 ends)
  | dropped path => exact closing path (h.drops (h.trail hs path).1)

end Conserves

/-! ## Many tasks -/

namespace Accounts

variable {tasks tasks' : List τ} {finished : List (List ε × Except φ α)}

/-- At first there are only births. -/
theorem of_born {births : List (List ε × τ)} (h : ∀ b ∈ births, born b.1 b.2) :
    k.Accounts born (births.map Prod.snd) [] (births.flatMap Prod.fst) where
  ended := List.forall_mem_nil _
  underWay := ⟨births, fun b mem => .of_born (h b mem), .refl _, by
    rw [List.flatMap_nil, List.append_nil]⟩

/-- The tasks may change places. -/
theorem turns (h : k.Accounts born tasks finished reports) (perm : tasks.Perm tasks') :
    k.Accounts born tasks' finished reports where
  ended := h.ended
  underWay := by
    obtain ⟨under, lived, same, made⟩ := h.underWay
    exact ⟨under, lived, same.trans perm, made⟩

theorem adds (h : k.Accounts born tasks finished reports) (birth : born [] t) :
    k.Accounts born (tasks ++ [t]) finished reports where
  ended := h.ended
  underWay := by
    obtain ⟨under, lived, same, made⟩ := h.underWay
    refine ⟨([], t) :: under, List.forall_mem_cons.2 ⟨.of_born birth, lived⟩, ?_, made⟩
    exact (same.cons t).trans (List.perm_append_singleton t tasks).symm

/-- **One of the tasks under way** has reported some of it, the others the rest. -/
theorem split (h : k.Accounts born (t :: tasks) finished reports) :
    ∃ (past : List ε) (under : List (List ε × τ)), k.Lived born past t
      ∧ (∀ u ∈ under, k.Lived born u.1 u.2)
      ∧ (under.map Prod.snd).Perm tasks
      ∧ reports.Perm (past ++ (under.flatMap Prod.fst ++ finished.flatMap Prod.fst)) := by
  obtain ⟨under, lived, same, made⟩ := h.underWay
  obtain ⟨⟨past, t⟩, mem, rfl⟩ := List.mem_map.1 (same.symm.subset List.mem_cons_self)
  obtain ⟨before, behind, rfl⟩ := List.append_of_mem mem
  have front : (before ++ (past, t) :: behind).Perm ((past, t) :: (before ++ behind)) :=
    List.perm_middle
  refine ⟨past, before ++ behind, lived _ mem, fun u hu => lived u ?_, ?_, ?_⟩
  · exact front.symm.subset (List.mem_cons_of_mem _ hu)
  · exact ((front.map Prod.snd).symm.trans same).cons_inv
  · rw [← List.append_assoc]
    exact made.trans ((front.flatMap_right Prod.fst).append_right _)

/-- What one task reports next is the last of its reports. -/
theorem works (h : k.Accounts born (t :: tasks) finished reports) (move : k.moves t r t') :
    k.Accounts born (t' :: tasks) finished (reports ++ r) where
  ended := h.ended
  underWay := by
    obtain ⟨past, under, first, lived, same, made⟩ := h.split
    refine ⟨(past ++ r, t') :: under, List.forall_mem_cons.2 ⟨first.move move, lived⟩,
      same.cons t', ?_⟩
    rw [← Multiset.coe_eq_coe] at made ⊢
    simp only [List.flatMap_cons, ← Multiset.coe_add] at made ⊢
    rw [made]
    abel

/-- **A task that finishes** is over, with its outcome. -/
theorem finishes {o : Except φ α} (h : k.Accounts born (t :: tasks) finished reports)
    (ends : k.ends t r o) :
    ∃ life, k.Accounts born tasks ((life, o) :: finished) (reports ++ r) := by
  obtain ⟨past, under, first, lived, same, made⟩ := h.split
  refine ⟨past ++ r, List.forall_mem_cons.2 ⟨first.ended ends, h.ended⟩,
    under, lived, same, ?_⟩
  rw [← Multiset.coe_eq_coe] at made ⊢
  simp only [List.flatMap_cons, ← Multiset.coe_add] at made ⊢
  rw [made]
  abel

/-- **When all that is under way is dropped**, only lives are left. -/
theorem exists_lives {β : Type} {o : Option (Except φ β)}
    (h : k.Accounts born tasks finished reports)
    (fails : ∀ e, o = some (.error e) → ∃ life, (life, .error e) ∈ finished) :
    ∃ lives, k.MadeOf born (reports ++ tasks.flatMap k.drops) o lives
      ∧ lives.length = tasks.length + finished.length := by
  obtain ⟨under, lived, same, made⟩ := h.underWay
  refine ⟨(under.map fun u => (u.1 ++ k.drops u.2, none)) ++ finished.map fun u => (u.1, some u.2),
    ⟨fun life mem => ?_, ?_, fun e failed => ?_⟩, ?_⟩
  · rcases List.mem_append.1 mem with mem | mem
    · obtain ⟨u, hu, rfl⟩ := List.mem_map.1 mem
      exact (lived u hu).dropped
    · obtain ⟨u, hu, rfl⟩ := List.mem_map.1 mem
      exact h.ended u hu
  · have dropped : (tasks.flatMap k.drops).Perm (under.flatMap fun u => k.drops u.2) := by
      rw [← List.flatMap_map Prod.snd k.drops]
      exact (same.flatMap_right k.drops).symm
    have reported : (under.flatMap fun u => u.1 ++ k.drops u.2).Perm
        (under.flatMap Prod.fst ++ under.flatMap fun u => k.drops u.2) :=
      (List.flatMap_append_perm under Prod.fst fun u => k.drops u.2).symm
    rw [List.flatMap_append, List.flatMap_map, List.flatMap_map]
    rw [← Multiset.coe_eq_coe] at made dropped reported ⊢
    simp only [← Multiset.coe_add] at made reported ⊢
    rw [made, dropped, reported]
    abel
  · obtain ⟨life, mem⟩ := fails e failed
    exact ⟨life, List.mem_append_right _
      (List.mem_map_of_mem (f := fun u => (u.1, some u.2)) mem)⟩
  · rw [List.length_append, List.length_map, List.length_map, ← same.length_eq, List.length_map]

end Accounts

end Course

/-! ## Windows -/

namespace Window

variable {k : Course φ τ α ε} {born : List ε → τ → Prop} {width total : Nat}
  {supply : Nat → Option τ} {w w' : Window φ τ α} {reports more : List ε}

/-- **The tasks of a run account for its reports**, those delivered among them. -/
structure Accounted (k : Course φ τ α ε) (born : List ε → τ → Prop) (w : Window φ τ α)
    (reports : List ε) : Prop where
  tasks : ∃ finished, k.Accounts born w.tasks finished reports
    ∧ w.tasks.length + finished.length = w.begun
    ∧ ∀ r ∈ w.queue.early, ∃ life, (life, r.2) ∈ finished

theorem Accounted.start : (start : Window φ τ α).Accounted k born [] :=
  ⟨[], .of_born (List.forall_mem_nil _), rfl, fun _ h => (List.not_mem_nil h).elim⟩

theorem Accounted.step (fresh : ∀ n t, supply n = some t → born [] t)
    (h : w.Accounted k born reports) (s : Step k width supply w more w') :
    w'.Accounted k born (reports ++ more) := by
  obtain ⟨finished, accounts, count, early⟩ := h
  have at_front : ∀ {n : Nat} {t : τ} {others : List (Nat × τ)},
      w.queue.waiting = (n, t) :: others → w.tasks = t :: others.map Prod.snd :=
    fun front => congrArg (List.map Prod.snd) front
  cases s with
  | @begins t room next =>
    have added : ({ w with queue := w.queue.push w.begun t, begun := w.begun + 1 } :
        Window φ τ α).tasks = w.tasks ++ [t] := List.map_append
    refine ⟨finished, ?_, ?_, early⟩
    · rw [added, List.append_nil]
      exact accounts.adds (fresh _ _ next)
    · rw [added, List.length_append, List.length_singleton, Nat.add_right_comm, count]
  | works front move =>
    rw [at_front front] at accounts count
    exact ⟨finished, accounts.works move, count, early⟩
  | @turns n t others front rests =>
    have back : List.Perm ([(n, t)] ++ others) (others ++ [(n, t)]) := List.perm_append_comm
    have perm : w.tasks.Perm ((others ++ [(n, t)]).map Prod.snd) := by
      rw [at_front front]
      exact back.map Prod.snd
    refine ⟨finished, ?_, ?_, early⟩
    · rw [List.append_nil]
      exact accounts.turns perm
    · rw [← count, perm.length_eq]
      rfl
  | finishes front ends =>
    rw [at_front front] at accounts count
    obtain ⟨life, accounts⟩ := accounts.finishes ends
    refine ⟨_, accounts, ?_, List.forall_mem_cons.2 ⟨⟨life, List.mem_cons_self⟩, ?_⟩⟩
    · exact (Nat.add_right_comm _ _ _).symm.trans count
    · exact fun r mem => (early r mem).imp fun _ => List.mem_cons_of_mem _
  | delivers turn =>
    obtain ⟨-, rfl⟩ := Queue.takeEarly?_eq_some turn
    rw [List.append_nil]
    exact ⟨finished, accounts, count, fun r mem => early r (List.mem_of_mem_filter mem)⟩

theorem Accounted.trail (fresh : ∀ n t, supply n = some t → born [] t)
    (h : w.Accounted k born reports) (path : Trail (Step k width supply) w more w') :
    w'.Accounted k born (reports ++ more) := by
  induction path with
  | refl => rwa [List.append_nil]
  | tail _ last ih =>
    rw [← List.append_assoc]
    exact ih.step fresh last

/-- No other task ever waits in a run than those that it began. -/
theorem Accounted.exists_lives {β : Type} {o : Option (Except φ β)}
    (h : w.Accounted k born reports)
    (fails : ∀ e, o = some (.error e) → ∃ r ∈ w.queue.early, r.2 = .error e) :
    ∃ lives, k.MadeOf born (reports ++ k.dropAll w.queue.waiting) o lives
      ∧ lives.length = w.begun := by
  obtain ⟨finished, accounts, count, early⟩ := h
  obtain ⟨lives, made, length⟩ := accounts.exists_lives (o := o) fun e failed => by
    obtain ⟨r, mem, same⟩ := fails e failed
    exact same ▸ early r mem
  rw [dropAll_waiting]
  exact ⟨lives, made, length.trans count⟩

theorem Accounted.ends {o : Except φ (Array α)} (h : w.Accounted k born reports)
    (stops : Stops k width supply w more o) :
    ∃ lives, k.MadeOf born (reports ++ more) (some o) lives ∧ lives.length = w.begun := by
  cases stops with
  | finishes empty missing full =>
    have ended := h.exists_lives (o := some (.ok w.delivered)) fun e failed => nomatch failed
    rwa [empty] at ended
  | fails turn =>
    obtain ⟨mem, rfl⟩ := Queue.takeEarly?_eq_some turn
    refine h.exists_lives fun e failed => ⟨_, mem, ?_⟩
    exact congrArg Except.error (Except.error.inj (Option.some.inj failed))

/-- **A run is made of the lives of its tasks**, none of them for a task past
the last. -/
theorem exists_lives (fresh : ∀ n t, supply n = some t → born [] t)
    (last : ∀ n, total ≤ n → supply n = none) {o : Option (Except φ (Array α))}
    (life : (course k width supply).Life start reports o) :
    ∃ lives, k.MadeOf born reports o lives ∧ lives.length ≤ total := by
  have begun_le {reports : List ε} {w : Window φ τ α}
      (path : Trail (Step k width supply) start reports w) : w.begun ≤ total :=
    (path.invariant (fun h s => Within.step h s) ⟨Nat.zero_le _, last⟩ :
      Within total supply w).begun_le
  cases life with
  | ended path ends =>
    obtain ⟨lives, made, count⟩ := (Accounted.start.trail fresh path).ends ends
    exact ⟨lives, made, count.le.trans (begun_le path)⟩
  | dropped path =>
    obtain ⟨lives, made, count⟩ := (Accounted.start.trail fresh path).exists_lives
      (o := (none : Option (Except φ (Array α)))) fun e failed => nomatch failed
    exact ⟨lives, made, count.le.trans (begun_le path)⟩

end Window

/-! ## Joins -/

namespace Join

variable {k : Course φ τ α ε} {born : List ε → τ → Prop} {count : Nat} {join join' : Join φ τ α}
  {reports more : List ε}

/-- **As many tasks that are waited for together** account for all reports. -/
inductive Accounted (k : Course φ τ α ε) (born : List ε → τ → Prop) (count : Nat) :
    Join φ τ α → List ε → Prop
  | rounds {slots : List (Slot τ α)} {finished : List (List ε × Except φ α)} {reports : List ε}
      (accounts : k.Accounts born (running slots) finished reports)
      (total : (running slots).length + finished.length = count) :
      Accounted k born count (.rounds slots) reports
  | run {w : Window φ τ α} {reports : List ε} (h : w.Accounted k born reports)
      (total : w.begun = count) : Accounted k born count (.run w) reports

theorem Accounted.ofList {births : List (List ε × τ)} (h : ∀ b ∈ births, born b.1 b.2) :
    (ofList (births.map Prod.snd)).Accounted k born births.length (births.flatMap Prod.fst) := by
  have accounts : k.Accounts born (Join.ofList (births.map Prod.snd) : Join φ τ α).tasks []
      (births.flatMap Prod.fst) := by
    rw [tasks_ofList]
    exact .of_born h
  have total : (Join.ofList (births.map Prod.snd) : Join φ τ α).tasks.length = births.length := by
    rw [tasks_ofList, List.length_map]
  unfold Join.ofList at accounts total ⊢
  split
  · rw [if_pos ‹_›] at accounts total
    exact .rounds accounts total
  · rw [if_neg ‹_›] at accounts total
    refine .run ⟨[], accounts, ?_, fun _ h => (List.not_mem_nil h).elim⟩ (List.length_map _)
    exact total.trans (List.length_map _).symm

/-- A running task among slots, and the others. -/
theorem running_middle (before behind : List (Slot τ α)) (t : τ) :
    (running (before ++ .running t :: behind)).Perm
      (t :: running (before ++ behind)) := by
  rw [running_append, running_append]
  exact List.perm_middle

theorem Accounted.step (h : join.Accounted k born count reports) (s : Step k join more join') :
    join'.Accounted k born count (reports ++ more) := by
  cases s with
  | works move =>
    cases h with
    | rounds accounts total =>
      refine .rounds (((accounts.turns (running_middle ..)).works move).turns
        (running_middle ..).symm) ?_
      rw [← total, (running_middle ..).length_eq, (running_middle ..).length_eq]
      rfl
  | @finishes before behind t _ a ends =>
    cases h with
    | rounds accounts total =>
      have done : running (before ++ .done a :: behind) = running (before ++ behind) := by
        rw [running_append, running_append]
        rfl
      obtain ⟨life, accounts⟩ := (accounts.turns (running_middle ..)).finishes ends
      rw [← done] at accounts
      refine .rounds accounts ?_
      rw [← total, (running_middle ..).length_eq, done, List.length_cons, List.length_cons]
      omega
  | run step =>
    cases h with
    | run h total =>
      have fresh (n : Nat) (t : τ) (missing : (fun _ => none : Nat → Option τ) n = some t) :
          born [] t := nomatch missing
      refine .run (h.step fresh step) (Eq.trans ?_ total)
      cases step with
      | begins room next => cases next
      | works | turns | finishes | delivers => rfl

theorem Accounted.trail (h : join.Accounted k born count reports)
    (path : Trail (Step k) join more join') : join'.Accounted k born count (reports ++ more) := by
  induction path with
  | refl => rwa [List.append_nil]
  | tail _ last ih =>
    rw [← List.append_assoc]
    exact ih.step last

theorem Accounted.ends {o : Except φ (List α)} (h : join.Accounted k born count reports)
    (stops : Stops k join more o) :
    ∃ lives, k.MadeOf born (reports ++ more) (some o) lives ∧ lives.length = count := by
  cases stops with
  | completes results =>
    cases h with
    | rounds accounts total =>
      have none : running (results.map .done : List (Slot τ α)) = [] := by
        rw [running, List.filterMap_map]
        exact List.filterMap_eq_nil_iff.2 (fun a _ => rfl)
      rw [none] at accounts total
      have succeeded (e : φ) : some (.ok results) ≠ some (.error e : Except φ (List α)) := by
        rintro ⟨⟩
      obtain ⟨lives, made, length⟩ := accounts.exists_lives fun e failed =>
        (succeeded e failed).elim
      exact ⟨lives, made, length.trans total⟩
  | @fails before behind t last e ends =>
    cases h with
    | rounds accounts total =>
      obtain ⟨life, finished⟩ := (accounts.turns (running_middle ..)).finishes ends
      obtain ⟨lives, made, length⟩ :=
        finished.exists_lives (o := some (.error e : Except φ (List α)))
        fun e' failed => ⟨life, by
          obtain rfl := Except.error.inj (Option.some.inj failed)
          exact List.mem_cons_self⟩
      rw [running_append, List.flatMap_append, ← dropSlots_eq, ← dropSlots_eq,
        List.append_assoc] at made
      refine ⟨lives, made, length.trans ?_⟩
      rw [← total, (running_middle ..).length_eq, running_append, List.length_cons,
        List.length_cons]
      omega
  | @run w _ o stops =>
    cases h with
    | run h total =>
      obtain ⟨lives, made, length⟩ := h.ends stops
      refine ⟨lives, ⟨made.each, made.perm, fun e failed => made.fails e ?_⟩, length.trans total⟩
      cases o with
      | ok values => cases failed
      | error e' => exact congrArg _ (congrArg _ (Except.error.inj (Option.some.inj failed)))

theorem Accounted.drops {β : Type} (h : join.Accounted k born count reports) :
    ∃ lives, k.MadeOf born (reports ++ (course k).drops join) (none : Option (Except φ β)) lives
      ∧ lives.length = count := by
  cases h with
  | rounds accounts total =>
    obtain ⟨lives, made, length⟩ := accounts.exists_lives (o := (none : Option (Except φ β)))
      fun e failed => nomatch failed
    rw [← dropSlots_eq] at made
    exact ⟨lives, made, length.trans total⟩
  | run h total =>
    obtain ⟨lives, made, length⟩ := h.exists_lives (o := (none : Option (Except φ β)))
      fun e failed => nomatch failed
    exact ⟨lives, made, length.trans total⟩

/-- **A join is made of the lives of its tasks.** -/
theorem exists_lives {births : List (List ε × τ)} (h : ∀ b ∈ births, born b.1 b.2)
    {o : Option (Except φ (List α))}
    (life : (course k).Life (ofList (births.map Prod.snd)) reports o) :
    ∃ lives, k.MadeOf born (births.flatMap Prod.fst ++ reports) o lives
      ∧ lives.length = births.length := by
  cases life with
  | ended path ends =>
    rw [← List.append_assoc]
    exact ((Accounted.ofList h).trail path).ends ends
  | dropped path =>
    rw [← List.append_assoc]
    exact ((Accounted.ofList h).trail path).drops

end Join

end DynValue.Schedule
